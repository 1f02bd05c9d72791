import Leveling.Proofs.Search.Calls

/-!
# States that pass the check

The check of the bounds computes for each job what its arcs demand.  If the arcs close no cycle, bounds
that are what the arcs demand are the exact ones, and if the check finds room for each job as well, the
bounds are consistent with the network.  So an attempt to make room for a pair may be made in any state
that passes the check with nothing deferred, and what it leaves passes the check again.

The states of a search are such states whenever nothing is deferred.
-/

namespace Leveling

open Checked Network

/-! ## Bounds that pass the check -/

namespace Problem

variable {α : Type} [Scalar α] {p : Problem α} {net : Network} {b : Bounds}

omit [Scalar α] in
/-- If the arcs close no cycle and the check of the bounds finds no defect, the bounds are exact and leave room
for all jobs. -/
lemma Searchable.exactBounds (ready : p.Searchable net b) (built : p.Built) (timely : p.Timely)
    (verified : (b.check net).Accepts ()) : p.ExactBounds net.HasArc b ∧
      ∀ v < p.jobs.size, valueAt b.early.value v + p.durationOf v ≤ valueAt b.late.value v :=
  built.exactBounds_of_check timely ready.linked ready.numJobs ready.acyclic ready.durations
    ready.limit ready.size verified

omit [Scalar α] in
/-- Bounds in which the check finds no defect are consistent if nothing is deferred and no lag is too short. -/
lemma Searchable.consistent (ready : p.Searchable net b) (built : p.Built) (timely : p.Timely)
    (verified : (b.check net).Accepts ()) (nothing : ∀ side, (b.table side).deferred = [])
    (lags : ∀ {u w lag}, net.HasArc u w lag → p.durationOf u ≤ lag)
    (hidden : Side → Nat → Int → Prop) : Consistent (built.frame timely) hidden net b := by
  obtain ⟨exact_bounds, room⟩ := ready.exactBounds built timely verified
  have settled := fun side => exact_bounds.settled built timely ready.linked ready.numJobs ready.limit
    nothing side (hidden side)
  have fitting : p.Fitting net.HasArc := by
    refine ⟨ready.acyclic, fun v hv => ⟨_, exact_bounds.start v hv, (room v hv).trans ?_⟩⟩
    have above := (settled .late).sound.above v
    have deadline : (built.frame timely).floor .late v = p.durationOf v - p.deadlineOf v := rfl
    have height : (built.frame timely).heights .late (b.table .late).value v =
      p.durationOf v - valueAt b.late.value v := rfl
    omega
  have fits : Fits (built.frame timely) net (built.frame timely).deadlines := fits_of_lags lags
  have nonneg : ∀ {u w lag}, net.HasArc u w lag → 0 ≤ lag := fun {u w lag} arc =>
    ((built.frame timely).duration_nonneg u).trans (lags arc)
  exact ⟨fitting.roomy built timely ready.linked ready.numJobs nonneg,
    ⟨ready.durations, fun side => (settled side).limit⟩, settled,
    Fits.of_above fits (settled .late).sound.above rfl⟩

end Problem

namespace Solver

variable {ρ α : Type} [RandomSource ρ] [Scalar α] {p : Problem α} {F : Frame} {base : Network}
  {kind : String} {s s' : Solver ρ α} {source target : Nat}

/-- A state in which nothing is deferred and the check of the bounds finds no defect.  The arcs close no cycle,
and no lag is shorter than the duration of its source. -/
structure Quiescent (p : Problem α) (s : Solver ρ α) : Prop where
  ready : p.Searchable s.network s.bounds
  lags : ∀ {u w lag}, s.network.HasArc u w lag → p.durationOf u ≤ lag
  idle : s.Idle
  verified : (s.bounds.check s.network).Accepts ()
  placed : ∃ σ, s.profile.Holds p σ
  deletion : s.deletion.Sized p.jobs.size
  penalty : s.deletion.penalty < 2 ^ 32

omit [RandomSource ρ] in
/-- Such a state is at rest. -/
lemma Quiescent.resting (h : s.Quiescent p) (built : p.Built) (timely : p.Timely) :
    s.Resting p (built.frame timely) where
  consistent := h.ready.consistent built timely h.verified h.idle (fun arc => h.lags arc) _
  fits := fits_of_lags (F := built.frame timely) fun arc => h.lags arc
  idle := h.idle
  clean := h.ready.clean
  base_value := h.ready.base
  placed := h.placed
  deletion := built.size_frame timely ▸ h.deletion
  penalty := h.penalty

omit [RandomSource ρ] in
/-- The states of a search pass the check whenever nothing is deferred. -/
lemma Steady.quiescent (footing : Footing p F base) (h : s.Steady p F base kind) (idle : s.Idle)
    (penalty : s.deletion.penalty < 2 ^ 32) : s.Quiescent p where
  ready :=
    { linked := h.consistent.roomy.linked
      acyclic := h.consistent.roomy.acyclic
      clean := h.grown.clean
      numJobs := h.consistent.roomy.size.trans footing.size
      durations := h.consistent.of.durations.trans footing.base.durations
      limit := fun side => (h.consistent.of.limit side).trans (footing.base.limit side)
      base := h.base_value
      size := fun side => (h.consistent.settled side).sound.size.trans footing.size }
  lags arc := footing.durationOf _ ▸ footing.lag_le h.grown arc
  idle := idle
  verified := h.consistent.check (fits_of_lags fun arc => footing.lag_le h.grown arc) idle
  placed := ⟨_, h.holds⟩
  deletion := footing.size ▸ h.deletion
  penalty := penalty

/-- The only candidate is the arc between two jobs, for which room was made by deleting arcs that may be
deleted. -/
structure Serialized (p : Problem α) (s : Solver ρ α) (source target : Nat) (refs : List ArcRef)
    (s' : Solver ρ α) : Prop where
  pool : s'.pool.entries = #[⟨source, target, 1⟩]
  source_lt : source < p.jobs.size
  target_lt : target < p.jobs.size
  apart : source ≠ target
  deletable : ∀ ref ∈ refs, s.network.Deletable ref
  deleted : s.network.delete refs = .ok s'.network
  idle : s'.Idle
  verified : (s'.bounds.check s'.network).Accepts ()
  fits : valueAt s'.bounds.early.value source + p.durationOf source + p.durationOf target ≤
    valueAt s'.bounds.late.value target

omit [RandomSource ρ] in
/-- A pair for which room was made, whatever was collected before, is serialized. -/
lemma Paired.serialized (basis : Basis p F base) (h : s.Resting p F)
    {pool : CandidatePool α} (paired : Paired F { s with pool } source target s') :
    ∃ refs, Serialized p s source target refs s' := by
  obtain ⟨hs, ht, apart, s₁, refs, s₂, searched, deletable, room, answer, rfl⟩ := paired
  have h₁ := (h.withPool pool).after searched
  obtain ⟨σ, placed⟩ := h₁.placed
  have severed := (deleteArcs_answers basis h₁.consistent h₁.fits h₁.idle placed fun ref member =>
    searched.network ▸ deletable ref member).of_eq_ok answer
  have consistent := severed.consistent fun _ _ _ => False
  have fits : Fits F s₂.network F.deadlines := fun arc => h₁.fits (severed.deleted.hasArc arc)
  have makes := room s₂.network _ _ (searched.network ▸ severed.deleted)
    (consistent.settled .early).sound (consistent.settled .late).sound
  rw [← basis.durationOf, ← basis.durationOf] at makes
  exact ⟨refs, rfl, basis.size ▸ hs, basis.size ▸ ht, apart, deletable,
    searched.network ▸ severed.delete, severed.idle, consistent.check fits severed.idle, makes⟩

omit [RandomSource ρ] in
/-- **Serialization.**  If the attempt to make room for a pair leaves no candidate, the network, the bounds and
the profile are as they were.  Otherwise the only candidate is the arc between two different jobs; the
arcs that were deleted may be deleted, the check finds no defect in the bounds afterwards, and the
second job fits in behind the first one.  The attempt answers if there are not too many arcs to be
counted, whatever the depth and the penalty of the searches and the number of trials. -/
theorem makeCandidate_serializes {jobs : Array (Job α)} {resources : List (Resource α)}
    {given : List Precedence} (accepted : (Problem.build jobs resources given).Accepts p)
    (modest : ∀ job ∈ p.jobs.toList, job.deadline ≤ 2 ^ 30) (h : s.Quiescent p) :
    s.makeCandidate.AnswersIf (s.network.arcCount ≤ 2 ^ 63) fun s' =>
      (s'.pool.isEmpty = true → s'.network = s.network ∧ s'.bounds = s.bounds ∧
        s'.profile = s.profile) ∧
      (s'.pool.isEmpty = false → ∃ source target refs, Serialized p s source target refs s') := by
  have built := Problem.built_of_build accepted
  have timely : p.Timely := fun job member => (modest job member).trans (by decide)
  obtain ⟨base, -, -, known⟩ := built.base timely
  have basis : Basis p (built.frame timely) base := ⟨built, timely, known⟩
  have resting := h.resting built timely
  have made := resting.makeCandidate basis (built.modest timely modest)
  rw [h.ready.linked.size_eq] at made
  refine made.imp ?_
  rintro s' ⟨pool, -, attempted⟩
  cases attempted with
  | failed searched =>
    refine ⟨fun _ => ⟨searched.network, searched.bounds, searched.profile⟩, fun full => ?_⟩
    cases (show true = false from full)
  | paired paired =>
    obtain ⟨refs, serialized⟩ := paired.serialized basis resting
    refine ⟨fun vacant => ?_, fun _ => ⟨_, _, refs, serialized⟩⟩
    unfold CandidatePool.isEmpty at vacant
    rw [serialized.pool] at vacant
    cases (show false = true from vacant)

/-! ## A small instance -/

/-- Three jobs of the same demand, of which any two can run one after the other. -/
def trio : Problem ℚ where
  jobs := #[⟨2, 0, 4, [1]⟩, ⟨2, 0, 4, [1]⟩, ⟨2, 0, 4, [1]⟩]
  resources := [.linear 1]
  precedences := []
  order := [0, 1, 2]
  earliestStart := #[0, 0, 0]
  latestFinish := #[4, 4, 4]

/-- The three jobs are accepted. -/
lemma trio_accepted : (Problem.build trio.jobs trio.resources []).Accepts trio := by
  with_unfolding_all rfl

/-- No deadline of the three jobs is late. -/
lemma trio_modest : ∀ job ∈ trio.jobs.toList, job.deadline ≤ 2 ^ 30 := by
  intro job member
  simp only [trio, List.mem_cons, List.not_mem_nil, or_false, or_self] at member
  rw [member]
  decide

/-- The first state of a search for the three jobs, which tries two pairs, and the state after the second job was
put in front of the third one. -/
def trioStates : Verdict (SolverError ℚ) (Solver ChaCha ℚ × Solver ChaCha ℚ) := do
  let first ← Solver.new trio { brief with deletionTrials := 2 }
  let s ← (first.insertArc 1 2 true : Checked (Solver ChaCha ℚ))
  return (first, s)

/-- In the second one of these states two jobs are in the active range, and both searches succeed for them. -/
def trioTest : Solver ChaCha ℚ × Solver ChaCha ℚ → Bool := fun (first, s) =>
  decide (first.admits 1 2 = .ok true ∧ s.bounds.hasDeferred = false ∧
    s.deletion.penalty < 2 ^ 32 ∧ s.network.arcCount ≤ 2 ^ 63 ∧ s.config.deletionTrials = 2 ∧
    ([0, 1].mapM fun job => do return (← s.bounds.earliestFinish job, job)) = .ok [(2, 0), (2, 1)] ∧
    ([0, 1].mapM fun job => do return (← s.bounds.earliestStart job, job)) = .ok [(0, 0), (0, 1)] ∧
    (s.pool.collect s.bounds s.active).Answers fun pool => pool.jobs = #[0, 1] ∧
      mayFollow { s with pool } 0 1 = .ok true ∧
      (planRoom { s with pool } 0 1).Answers fun r =>
        ∃ plans ∈ r.1, plans.1.arcs ++ plans.2.arcs ≠ [])

/-- Room is made for the first two of the three jobs. -/
theorem makeCandidate_serializes_trio : (Problem.build trio.jobs trio.resources []).Accepts trio ∧
    (∀ job ∈ trio.jobs.toList, job.deadline ≤ 2 ^ 30) ∧ ∃ s : Solver ChaCha ℚ, s.Quiescent trio ∧
      s.makeCandidate.Answers fun s' => ∃ source target refs, Serialized trio s source target refs s' := by
  obtain ⟨⟨first, s⟩, states, test⟩ := Verdict.exists_accepts_passes
    (show trioStates.passes trioTest = true by decide +kernel)
  have built := Problem.built_of_build trio_accepted
  have timely : trio.Timely := fun job member => (trio_modest job member).trans (by decide)
  obtain ⟨admits, drained, penalty, few, trials, finishes, starts, pool, collected, jobs, follows,
    ⟨⟨plans, s₁⟩, planned, ⟨back, forth⟩, present, some_arcs⟩⟩ := of_decide_eq_true test
  obtain rfl := Option.mem_def.1 present
  unfold trioStates at states
  obtain ⟨first', started, states⟩ := Verdict.accepts_bind.1 states
  obtain ⟨s', inserted, states⟩ := Verdict.accepts_bind.1 states
  cases Verdict.accepts_pure.1 states
  obtain ⟨base, footing, steady, -⟩ := steady_new built timely started
  obtain ⟨steady', -⟩ := (Steady.insertArc footing steady
    (steady.admitted (by decide) admits) true).of_eq_ok (Verdict.accepts_lift.1 inserted)
  have quiescent := steady'.quiescent footing (Session.deferred_of_hasDeferred drained) penalty
  have size : (built.frame timely).size = 3 := built.size_frame timely
  have found := ((quiescent.resting built timely).withPool pool).tryPair_of_plans footing.toBasis
    (built.modest timely trio_modest) (size ▸ by decide) (size ▸ by decide) follows planned some_arcs
  have made : s.makeCandidate.Answers fun s' => s'.pool.isEmpty = false := by
    have listed : pool.jobs.toList = [0, 1] := congrArg Array.toList jobs
    unfold Solver.makeCandidate byFinish byStartDown
    rw [collected, ok_bind, listed, finishes, starts, trials]
    simp only [ok_bind, pure_bind]
    rw [List.mergeSort_of_pairwise (by decide), List.mergeSort_of_pairwise (by decide)]
    -- the first pair is a job with itself
    have skipped : tryPair { s with pool } 0 0 = .ok (false, { s with pool }) := rfl
    change (do
      let (found, s') ← tryPair { s with pool } 0 0
      if found then return s' else tryPairs #[0, 1] #[0, 1] 1 1 s' :
        Checked (Solver ChaCha ℚ)).Answers _
    rw [skipped, ok_bind]
    change (do
      let (found, s') ← tryPair { s with pool } 0 1
      if found then return s' else tryPairs #[0, 1] #[0, 1] 2 0 s' :
        Checked (Solver ChaCha ℚ)).Answers _
    refine found.bind ?_
    rintro ⟨_, s'⟩ ⟨rfl, full⟩
    exact .pure full
  refine ⟨trio_accepted, trio_modest, s, quiescent, ?_⟩
  refine (made.and ((makeCandidate_serializes trio_accepted trio_modest quiescent).answers few)).imp ?_
  exact fun s' ⟨full, _, serialized⟩ => serialized full

end Solver

end Leveling
