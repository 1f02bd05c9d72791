import Leveling.Proofs.Search.Calls

/-!
# Starting over

When a search starts over, it comes back to the network, the bounds, the profile and the active range of
its first state, whatever it has done before, and starting over once more changes none of these.

That the profile comes back needs an argument for each kind.  A tracked profile is determined by the
starts of the jobs, because with all jobs placed no node that was taken out is left in its slot.  A dense
profile stores sums from which demands are subtracted again, so what it stores is determined by the starts
only if sums are exact; but moving a job to where it is does nothing, so starting over twice is the same as
starting over once with any scalars.
-/

namespace Leveling

open Checked Network

/-! ## Profiles that hold the same placement -/

namespace Profile

variable {α : Type} [Scalar α] {p : Problem α} {σ : Nat → Option Int} {P Q : Profile α}

/-- There is one tracked profile only for a placement of all jobs. -/
lemma Knows.ext_tracked {t t' : TrackedProfile α} {reduction reduction' : Reduction α}
    {horizon horizon' : Int} (h : Knows p σ (.tracked t reduction horizon))
    (h' : Knows p σ (.tracked t' reduction' horizon'))
    (placed : ∀ v < p.jobs.size, (σ v).isSome) :
    (.tracked t reduction horizon : Profile α) = .tracked t' reduction' horizon' := by
  obtain ⟨rfl, reduces, holds⟩ := h
  obtain ⟨rfl, reduces', holds'⟩ := h'
  obtain rfl := Option.some.inj (reduces.symm.trans reduces')
  have sizes : p.durations.size = p.jobs.size := Array.size_map
  rw [holds.ext holds' (holds.starts.ext holds'.starts) fun v hv => placed v (sizes ▸ hv)]

/-- Profiles of the same kind that hold the same placement have the same events. -/
lemma Knows.events_eq (h : P.Knows p σ) (h' : Q.Knows p σ) (same : P.kindName = Q.kindName) :
    P.events = Q.events := by
  cases P with
  | tracked t reduction horizon =>
    cases Q with
    | tracked t' reduction' horizon' =>
      obtain ⟨rfl, reduces, holds⟩ := h
      obtain ⟨rfl, reduces', holds'⟩ := h'
      obtain rfl := Option.some.inj (reduces.symm.trans reduces')
      have tree := holds.tree_eq holds' (holds.starts.ext holds'.starts)
      exact congrArg Except.ok (holds.same_answers holds' tree).1
    | dense q' => exact absurd same (show ¬"tree" = "array" by decide)
  | dense q =>
    cases Q with
    | tracked t' reduction' horizon' => exact absurd same (show ¬"array" = "tree" by decide)
    | dense q' =>
      have keeps : q.Keeps p σ := h
      have keeps' : q'.Keeps p σ := h'
      have starts : q.starts = q'.starts := keeps.starts.ext keeps'.starts
      have durations : q.durations = q'.durations := keeps.durations.trans keeps'.durations.symm
      change q.events = q'.events
      unfold DenseProfile.events DenseProfile.eventsOf
      rw [starts, durations]

/-- There is one dense profile only for a placement, if costs are exact. -/
lemma Holds.ext_dense {α : Type} [ExactScalar α] {p : Problem α} {σ : Nat → Option Int}
    {q q' : DenseProfile α} (h : Holds p σ (.dense q)) (h' : Holds p σ (.dense q'))
    (built : p.Built) (timely : p.Timely) (supplied : p.Supplied) : q = q' := by
  have keeps : q.Keeps p σ := h.knows built timely
  have keeps' : q'.Keeps p σ := h'.knows built timely
  have size : q.steps.size = q'.steps.size := keeps.steps.trans keeps'.steps.symm
  have resources : q.resources = q'.resources := keeps.resources.trans keeps'.resources.symm
  have durations : q.durations = q'.durations := keeps.durations.trans keeps'.durations.symm
  have demands : q.demands = q'.demands := keeps.demands.trans keeps'.demands.symm
  have starts : q.starts = q'.starts := keeps.starts.ext keeps'.starts
  have steps : q.steps = q'.steps := by
    refine Array.ext size fun i hi hi' => Option.some.inj ?_
    rw [← Array.getElem?_eq_getElem hi, ← Array.getElem?_eq_getElem hi',
      h.prices built timely supplied q rfl i hi, h'.prices built timely supplied q' rfl i hi']
  cases q
  cases q'
  congr

/-- There is one profile of each kind only for a placement of all jobs, except that costs have to be exact if the
profile is dense. -/
lemma Holds.ext {jobs : Array (Job α)} {resources : List (Resource α)} {given : List Precedence}
    (accepted : (Problem.build jobs resources given).Accepts p) (timely : p.Timely)
    (h : P.Holds p σ) (h' : Q.Holds p σ) (placed : ∀ v < p.jobs.size, (σ v).isSome)
    (same : P.kindName = Q.kindName) (exact_dense : Q.kindName = "array" → Scalar.IsExact α) : P = Q := by
  have built := Problem.built_of_build accepted
  cases P with
  | tracked t reduction horizon =>
    cases Q with
    | tracked t' reduction' horizon' => 
      exact (h.knows built timely).ext_tracked (h'.knows built timely) placed
    | dense q' => exact absurd same (show ¬"tree" = "array" by decide)
  | dense q =>
    cases Q with
    | tracked t' reduction' horizon' => exact absurd same (show ¬"array" = "tree" by decide)
    | dense q' =>
      obtain ⟨_, rfl⟩ := exact_dense rfl
      rw [h.ext_dense h' built timely (Problem.supplied_of_build accepted)]

end Profile

/-! ## Moves to where the jobs are -/

/-- Jobs that are moved to where they are stay there. -/
lemma moves_idle {α : Type} [Scalar α] {p : Problem α} {F : Frame} {base net : Network} {b : Bounds}
    {hidden : Side → Nat → Int → Prop} {P : Profile α} (footing : Footing p F base)
    (h : Consistent F hidden net b) (holds : P.Holds p (earliest F b)) {jobs : List Nat}
    (jobs_lt : ∀ v ∈ jobs, v < F.size) :
    jobs.foldlM (fun (P : Profile α) v => do P.reposition v (← b.earliestStart v)) P = .ok P := by
  induction jobs with
  | nil => rfl
  | cons v rest ih =>
    have hv := jobs_lt v List.mem_cons_self
    have there := (holds.knows footing.built footing.timely).startOf (footing.size ▸ hv)
    rw [earliest_of_lt hv] at there
    have stays : P.reposition v (valueAt b.early.value v) = .ok P := by
      rw [Profile.reposition_eq, there, ok_bind, if_pos rfl]
      rfl
    rw [List.foldlM_cons, h.earliestStart hv, ok_bind, stays, ok_bind]
    exact ih fun w member => jobs_lt w (List.mem_cons_of_mem _ member)

namespace Solver

variable {ρ α : Type} [RandomSource ρ] [Scalar α] {p : Problem α} {F : Frame} {base : Network}
  {kind : String} {first s : Solver ρ α}

omit [RandomSource ρ] in
/-- If nothing is deferred, a comparison to the best schedule leaves the bounds and the profile. -/
lemma updateBest_of_idle (idle : s.Idle) :
    s.updateBest.Ensures fun s' => s'.bounds = s.bounds ∧ s'.profile = s.profile := by
  have nothing : s.bounds.hasDeferred = false := by
    have early : s.bounds.early.deferred = [] := idle .early
    have late : s.bounds.late.deferred = [] := idle .late
    unfold Bounds.hasDeferred
    rw [early, late]
    rfl
  unfold Solver.updateBest
  rw [nothing, if_neg Bool.false_ne_true]
  refine Ensures.bind (P := (· = s)) (.pure rfl) fun s' same => ?_
  subst same
  dsimp only
  split
  · exact .pure ⟨bounds_note _ _, profile_note _ _⟩
  · exact .pure ⟨rfl, rfl⟩

/-- Starting over leaves the profile and the active range of a search that has just started over. -/
lemma Steady.reset_again (footing : Footing p F base) (h : s.Steady p F base kind)
    (renewed : s.Renewed p base) :
    s.reset.Ensures fun s' => s'.profile = s.profile ∧ s'.active = s.active := by
  unfold Solver.reset
  refine ((h.updateBest footing).ensures.and (updateBest_of_idle renewed.idle)).bind ?_
  rintro s₁ ⟨⟨h₁, -⟩, bounds, profile⟩
  refine Ensures.any.bind fun scorer _ => ?_
  dsimp only
  have back : s₁.bounds.reset = s₁.bounds := by
    rw [Intact.bounds_reset footing h₁, bounds, renewed.bounds]
  have inside : ∀ v ∈ List.range s₁.bounds.numJobs, v < F.size := by
    intro v member
    rw [← h₁.consistent.numJobs]
    exact List.mem_range.1 member
  have stay := moves_idle footing h₁.consistent h₁.holds inside
  rw [back]
  unfold Solver.moveJobs
  rw [stay, ok_bind, pure_bind]
  dsimp only
  rw [profile, renewed.active, ok_bind]
  refine .pure ⟨?_, ?_⟩
  · rw [profile_note]
  · rw [active_note]

/-- A state has the network, the bounds and the starts of the first state of a search, no candidates, and
the events of the first profile.  If the scalars are exact wherever the profile is dense, the whole profile
and the active range are those of the first state. -/
structure Restarted (p : Problem α) (first s : Solver ρ α) : Prop where
  outgoing : s.network.outgoing = first.base.outgoing
  incoming : s.network.incoming = first.base.incoming
  unflagged : s.network.flagged = 0
  bounds : s.bounds = first.bounds
  base : s.bounds = .ofProblem p
  idle : s.bounds.hasDeferred = false
  pool : s.pool.isEmpty = true
  starts : ∀ v < p.jobs.size, ∃ start, fetch p.earliestStart v = .ok start ∧
    s.profile.startOf v = .ok (some start)
  events : s.profile.events = first.profile.events
  profile : (first.profile.kindName = "array" → Scalar.IsExact α) → s.profile = first.profile
  active : (first.profile.kindName = "array" → Scalar.IsExact α) → s.active = first.active

omit [RandomSource ρ] in
/-- Two intact states of one search that have started over are the same as far as it counts. -/
lemma Steady.restarted {jobs : Array (Job α)} {resources : List (Resource α)}
    {given : List Precedence} (accepted : (Problem.build jobs resources given).Accepts p)
    (footing : Footing p F base) (h₀ : first.Steady p F base kind) (renewed₀ : first.Renewed p base)
    (h : s.Steady p F base kind) (renewed : s.Renewed p base) : Restarted p first s := by
  have same_kind : s.profile.kindName = first.profile.kindName := h.kind.trans h₀.kind.symm
  have same_bounds : s.bounds = first.bounds := renewed.bounds.trans renewed₀.bounds.symm
  have holds₀ : first.profile.Holds p (earliest F s.bounds) := same_bounds ▸ h₀.holds
  have known := h.holds.knows footing.built footing.timely
  have same : (first.profile.kindName = "array" → Scalar.IsExact α) → s.profile = first.profile :=
    h.holds.ext accepted footing.timely holds₀ (fun v hv => by
      rw [earliest_of_lt (lt_of_lt_of_eq hv footing.size.symm)]
      rfl) same_kind
  constructor
  · rw [renewed.network, h₀.base]
  · rw [renewed.network, h₀.base]
  · exact h.grown.clean
  · exact same_bounds
  · exact renewed.bounds
  · rw [renewed.bounds]
    rfl
  · unfold CandidatePool.isEmpty
    rw [renewed.pool]
    rfl
  · intro v hv
    have hv' : v < F.size := lt_of_lt_of_eq hv footing.size.symm
    have start := h.consistent.earliestStart hv'
    refine ⟨valueAt s.bounds.early.value v, ?_, ?_⟩
    · rw [← start, renewed.bounds]
      rfl
    · rw [known.startOf hv, earliest_of_lt hv']
  · exact known.events_eq (holds₀.knows footing.built footing.timely) same_kind
  · exact same
  · intro exact_dense
    have found := renewed.active
    rw [same exact_dense, renewed₀.active] at found
    exact (Except.ok.inj found).symm

/-- **Restarts.**  From all states that a search for an accepted instance reaches, starting over leads back
to what the search had at first, and starting over once more leaves all of that.  The search stays among
these states whatever is asked of it, and a search for a small instance does answer. -/
theorem reset_restores {jobs : Array (Job α)} {resources : List (Resource α)}
    {given : List Precedence} {config : Config α}
    (accepted : (Problem.build jobs resources given).Accepts p) (timely : p.Timely)
    (started : (Solver.new p config : Verdict _ (Solver ρ α)).Accepts first) :
    (∀ s, Reached first s → s.reset.Ensures fun s' => Restarted p first s' ∧
        s'.reset.Ensures fun s'' => Restarted p first s'' ∧ s''.profile = s'.profile ∧
          s''.active = s'.active) ∧
      Closed (Reached first) ∧ (Small p config → Responsive first) := by
  have built := Problem.built_of_build accepted
  obtain ⟨base, footing, steady, renewed, -⟩ := steady_new built timely started
  refine ⟨fun s reached => ?_, steady.closed footing, fun small => responsive built small started⟩
  refine ((steady.reached footing reached).reset footing).imp fun s' ⟨steady', renewed'⟩ => ?_
  refine ⟨steady.restarted accepted footing renewed steady' renewed', ?_⟩
  refine ((steady'.reset footing).and (steady'.reset_again footing renewed')).imp ?_
  rintro s'' ⟨⟨steady'', renewed''⟩, profile, active⟩
  exact ⟨steady.restarted accepted footing renewed steady'' renewed'', profile, active⟩

/-- A search for the pair starts over with the first profile and the first active range. -/
theorem reset_restores_pair : ∃ first : Solver ChaCha ℚ,
    (Solver.new ExactScalar.pair brief).Accepts first ∧
      (∀ s, Reached first s → s.reset.Ensures fun s' => Restarted ExactScalar.pair first s' ∧
        s'.profile = first.profile ∧ s'.active = first.active) ∧
        Closed (Reached first) ∧ Responsive first := by
  obtain ⟨first, started⟩ := exists_first_pair
  obtain ⟨restores, closed, answers⟩ :=
    reset_restores ExactScalar.pair_accepted small_pair.timely started
  refine ⟨first, started, fun s reached => ?_, closed, answers small_pair⟩
  refine (restores s reached).imp fun s' ⟨restarted, _⟩ => ⟨restarted, ?_, ?_⟩
  · exact restarted.profile fun _ => ExactScalar.isExact
  · exact restarted.active fun _ => ExactScalar.isExact

end Solver

end Leveling
