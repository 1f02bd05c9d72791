import Leveling.Proofs.Search.Operations
import Mathlib.Logic.Relation

/-!
# Reached states

A search moves from state to state by single operations: it propagates, compares the present schedule to
the best one, turns to another range, collects or draws candidates, inserts an arc, deletes arcs to make
room, or starts over.  The states in between are those that a search can *reach*.

What the counters, the log, the scorer and the stream of random numbers hold is left open, so what is
proved of the reached states holds for all of their contents.  Iterations and whole runs are made of these
operations.
-/

namespace Leveling

open Checked Network Relation

namespace Solver

variable {ρ α : Type} [RandomSource ρ] [Scalar α] {p : Problem α} {F : Frame} {base : Network}
  {kind : String} {first s s' : Solver ρ α} {source target : Nat}

/-- What a search keeps while it counts, logs, learns and draws numbers. -/
def core (s : Solver ρ α) : (Problem α × Network × Network × Bounds × Profile α ×
    CandidatePool α × DeletionSearch) × Config α × Span × Schedule α :=
  (s.heart, s.config, s.active, s.best)

omit [RandomSource ρ] [Scalar α] in
/-- Logging an event keeps the core. -/
@[simp] lemma core_note (s : Solver ρ α) (event : LogEvent α) : (s.note event).core = s.core := by
  unfold note
  split <;> rfl

/-- One operation of a search. -/
inductive Step : Solver ρ α → Solver ρ α → Prop
  /-- Something is counted, logged, learnt or drawn. -/
  | keep {s s' : Solver ρ α} (same : s'.core = s.core) : Step s s'
  /-- All deferred jobs are taken up. -/
  | propagate {s s' : Solver ρ α} (answer : s.propagate .everything = .ok s') : Step s s'
  /-- The present schedule is compared to the best one. -/
  | updateBest {s s' : Solver ρ α} (answer : s.updateBest = .ok s') : Step s s'
  /-- The active range follows the peak. -/
  | followPeak {s s' : Solver ρ α} {moved : Bool} (answer : s.followPeak = .ok (moved, s')) : Step s s'
  /-- Nothing is deferred, and the active range becomes the one where the cost is highest. -/
  | turn {s : Solver ρ α} {peak : Span} (idle : s.Idle)
      (found : s.profile.maximumRange = .ok peak) : Step s { s with active := peak }
  /-- The jobs of the active range are collected. -/
  | collect {s : Solver ρ α} {pool : CandidatePool α}
      (answer : s.pool.collect s.bounds s.active = .ok pool) : Step s { s with pool }
  /-- The candidates of the active range are collected. -/
  | regenerate {s s' : Solver ρ α} (answer : s.regenerate = .ok s') : Step s s'
  /-- The pool is refilled with the next batch. -/
  | nextBatch {s s' : Solver ρ α} (answer : s.nextBatch = .ok s') : Step s s'
  /-- The candidates are dropped. -/
  | clear {s : Solver ρ α} : Step s { s with pool := s.pool.clear }
  /-- Candidates are drawn until one can be inserted. -/
  | draw {s : Solver ρ α} {weighted : Bool} {drawn : Option (Candidate α) × CandidatePool α × ρ}
      (answer : s.drawAdmitted weighted s.pool s.random = .ok drawn) :
      Step s { s with pool := drawn.2.1, random := drawn.2.2 }
  /-- An arc between two jobs is inserted that is admitted. -/
  | insertArc {s s' : Solver ρ α} {source target : Nat} {complete : Bool} (ne : source ≠ target)
      (admitted : s.admits source target = .ok true)
      (answer : s.insertArc source target complete = .ok s') : Step s s'
  /-- Nothing is deferred, and arcs are looked for that can be deleted to make room for two jobs. -/
  | planRoom {s s' : Solver ρ α} {source target : Nat} {plans : Option (DeletionPlan × DeletionPlan)}
      (idle : s.Idle) (follows : s.mayFollow source target = .ok true)
      (answer : s.planRoom source target = .ok (plans, s')) : Step s s'
  /-- Nothing is deferred, and arcs are deleted. -/
  | deleteArcs {s s' : Solver ρ α} {refs : List ArcRef} (idle : s.Idle)
      (deletable : ∀ ref ∈ refs, s.network.Deletable ref)
      (answer : s.deleteArcs refs = .ok s') : Step s s'
  /-- The arc between two jobs becomes the only candidate. -/
  | offer {s : Solver ρ α} {source target : Nat} (source_lt : source < s.problem.numJobs)
      (target_lt : target < s.problem.numJobs) (ne : source ≠ target) :
      Step s { s with pool := s.pool.clear.push ⟨source, target, 1⟩ }
  /-- The search starts over. -/
  | reset {s s' : Solver ρ α} (answer : s.reset = .ok s') : Step s s'

/-- The state is reached from another one by operations of a search. -/
def Reached (first : Solver ρ α) : Solver ρ α → Prop := ReflTransGen Step first

/-! ## Reached states are intact -/

/-- **Step.**  An operation leads from intact states to intact states. -/
lemma Steady.step (footing : Footing p F base) (h : s.Steady p F base kind) (step : Step s s') :
    s'.Steady p F base kind := by
  cases step with
  | keep same =>
    simp only [core, Prod.mk.injEq] at same
    exact h.congr same.1 same.2.2.1
  | propagate answer =>
    have everything : Drain.everything ≠ .nothing := by decide
    exact ((Intact.propagate footing h everything).of_eq_ok answer).1
  | updateBest answer => exact ((h.updateBest footing).of_eq_ok answer).1
  | followPeak answer => exact h.followPeak footing _ answer
  | turn idle found => exact h.turn idle _
  | collect answer =>
    exact Intact.withPool h ((h.pool.collect h.consistent s.active).ensures _ answer) s.scorer s.random
  | regenerate answer => exact (h.regenerate _ answer).1
  | nextBatch answer => exact (h.nextBatch _ answer).1
  | clear => exact Intact.withPool h h.pool.clear s.scorer s.random
  | draw answer => exact Intact.withPool h (drawAdmitted_ensures s _ h.pool _ answer).1 s.scorer _
  | insertArc ne admitted answer =>
    exact ((h.insertArc footing (h.admitted ne admitted) _).of_eq_ok answer).1
  | planRoom idle follows answer =>
    obtain ⟨hs, ht, -⟩ := Intact.mayFollow h _ follows rfl
    exact (h.planRoom footing hs ht _ answer).1
  | deleteArcs idle deletable answer =>
    exact ((h.deleteArcs footing idle deletable).of_eq_ok answer).1
  | offer source_lt target_lt ne =>
    have size : F.size = s.problem.numJobs := footing.size.trans (congrArg Problem.numJobs h.problem).symm
    exact Intact.withPool h (h.pool.clear.push 1 ⟨size ▸ source_lt, size ▸ target_lt, ne⟩) s.scorer
      s.random
  | reset answer => exact (h.reset footing _ answer).1

/-- **Run.**  Only intact states are reached from intact states. -/
lemma Steady.reached (footing : Footing p F base) (h : s.Steady p F base kind)
    (reached : Reached s s') : s'.Steady p F base kind := by
  induction reached with
  | refl => exact h
  | tail _ step ih => exact ih.step footing step

/-! ## What is made of operations -/

/-- A drawn candidate is inserted. -/
lemma Steady.insertDrawn (h : s.Steady p F base kind) (complete : Bool) :
    (s.insertDrawn complete).Ensures (Reached s) := by
  unfold Solver.insertDrawn
  refine ((drawAdmitted_ensures s _ h.pool).and .same).bind ?_
  rintro ⟨drawn, pool, random⟩ ⟨⟨-, admitted⟩, answer⟩
  have reached : Reached s { s with pool, random } := .single (.draw answer)
  cases drawn with
  | none => exact .pure reached
  | some c =>
    obtain ⟨⟨-, -, ne⟩, isAdmitted⟩ := admitted c rfl
    refine Ensures.any.bind fun found _ => ?_
    split
    · exact .error
    · exact Ensures.same.imp fun s' answer => reached.tail (.insertArc ne isAdmitted answer)

/-- A pair of jobs is tried. -/
lemma Steady.tryPair (footing : Footing p F base) (h : s.Steady p F base kind) (idle : s.Idle) :
    (s.tryPair source target).Ensures fun r => Reached s r.2 ∧ r.2.Idle := by
  unfold Solver.tryPair
  refine ((Intact.mayFollow h).and .same).bind fun follows ⟨holds, answer⟩ => ?_
  split
  · exact .pure ⟨.refl, idle⟩
  · rename_i isTrue
    simp only [Bool.not_eq_true', Bool.not_eq_false] at isTrue
    subst isTrue
    obtain ⟨hs, ht, ne⟩ := holds rfl
    refine ((h.planRoom footing hs ht).and .same).bind ?_
    rintro ⟨plans, s₁⟩ ⟨⟨steady₁, same, deletable⟩, planned⟩
    have idle₁ : s₁.Idle := fun side => same ▸ idle side
    have reached₁ : Reached s s₁ := .single (.planRoom idle answer planned)
    cases plans with
    | none => exact .pure ⟨reached₁, idle₁⟩
    | some plans =>
      obtain ⟨back, forth⟩ := plans
      refine Ensures.any.bind fun fits _ => ?_
      split
      · exact .pure ⟨reached₁, idle₁⟩
      · dsimp only
        generalize noted : s₁.note _ = s₂
        have reached₂ : Reached s s₂ := noted ▸ reached₁.tail (.keep (core_note s₁ _))
        have steady₂ : s₂.Steady p F base kind := noted ▸ steady₁.note _
        have idle₂ : s₂.Idle := fun side => by
          rw [← noted, bounds_note]
          exact idle₁ side
        have deletable₂ : ∀ ref ∈ back.arcs ++ forth.arcs, s₂.network.Deletable ref := by
          rw [← noted, network_note]
          exact deletable (back, forth) rfl
        refine ((steady₂.deleteArcs footing idle₂ deletable₂).ensures.and .same).bind ?_
        rintro s₃ ⟨⟨steady₃, idle₃, -⟩, deleted⟩
        have size : F.size = s₃.problem.numJobs :=
          footing.size.trans (congrArg Problem.numJobs steady₃.problem).symm
        have reached₃ : Reached s s₃ := reached₂.tail (.deleteArcs idle₂ deletable₂ deleted)
        exact .pure ⟨reached₃.tail (.offer (size ▸ hs) (size ▸ ht) ne), idle₃⟩

/-- Pairs of jobs are tried one after the other. -/
lemma Steady.tryPairs (footing : Footing p F base) {finishers starters : Array Nat} {count : Nat} :
    ∀ {trial : Nat} {s : Solver ρ α}, s.Steady p F base kind → s.Idle →
      (tryPairs finishers starters trial count s).Ensures (Reached s) := by
  induction count with
  | zero => exact fun _ _ => .pure (.single .clear)
  | succ count ih =>
    intro trial s h idle
    unfold Solver.tryPairs
    dsimp only
    split
    · exact .pure (.single .clear)
    · refine Ensures.any.bind fun source _ => Ensures.any.bind fun target _ => ?_
      refine Ensures.same.bind fun r answer => ?_
      obtain ⟨tried, idle'⟩ := h.tryPair footing idle r answer
      split
      · exact .pure tried
      · exact (ih (h.reached footing tried) idle').imp fun s' => tried.trans

/-- Room is made for two jobs of the active range. -/
lemma Steady.makeCandidate (footing : Footing p F base) (h : s.Steady p F base kind)
    (idle : s.Idle) : s.makeCandidate.Ensures (Reached s) := by
  unfold Solver.makeCandidate
  refine Ensures.same.bind fun pool answer => ?_
  have collected : Step s { s with pool } := .collect answer
  refine Ensures.any.bind fun finishers _ => Ensures.any.bind fun starters _ => ?_
  exact (Steady.tryPairs footing (h.step footing collected) idle).imp fun s' => .head collected

/-- Starting over and looking for candidates. -/
lemma startOver_ensures (s : Solver ρ α) : s.startOver.Ensures (Reached s) := by
  unfold Solver.startOver
  refine Ensures.same.bind fun s₁ reset => Ensures.same.bind fun s₂ regenerated => ?_
  have reached : Reached s s₂ := .tail (.single (.reset reset)) (.regenerate regenerated)
  dsimp only
  split
  · exact .pure (reached.tail (.keep (core_note { s₂ with deletionsLeft := _ } .exhausted)))
  · exact .pure (reached.tail (.keep rfl))

/-- A search that has run dry finds something to insert, or finds out that there is nothing. -/
lemma Steady.unstick (footing : Footing p F base) (h : s.Steady p F base kind) :
    s.unstick.Ensures (Reached s) := by
  have last : ∀ {s₁ : Solver ρ α}, Reached s s₁ → (do
      let s ← s₁.updateBest
      if 0 < s.deletionsLeft then
        let s ← { s with deletionsLeft := s.deletionsLeft - 1 }.makeCandidate
        if s.pool.isEmpty then s.startOver else return s
      else s.startOver : Checked (Solver ρ α)).Ensures (Reached s) := by
    intro s₁ reached
    refine Ensures.same.bind fun s₂ answer => ?_
    have updated : Reached s s₂ := reached.tail (.updateBest answer)
    obtain ⟨-, idle, -⟩ := ((h.reached footing reached).updateBest footing).of_eq_ok answer
    split
    · have counted : Reached s { s₂ with deletionsLeft := s₂.deletionsLeft - 1 } :=
        updated.tail (.keep rfl)
      refine ((h.reached footing counted).makeCandidate footing idle).bind fun s₃ made => ?_
      split
      · exact (startOver_ensures s₃).imp fun s' => (counted.trans made).trans
      · exact .pure (counted.trans made)
    · exact (startOver_ensures s₂).imp fun s' => updated.trans
  unfold Solver.unstick
  refine Ensures.same.bind fun s₁ propagated => ?_
  have counted : Reached s { s with counters.unstickCalls := s.counters.unstickCalls + 1 } :=
    .single (.keep rfl)
  have reached : Reached s s₁ := counted.tail (.propagate propagated)
  have idle : s₁.Idle := by
    have everything : Drain.everything ≠ .nothing := by decide
    exact ((Intact.propagate footing (h.reached footing counted) everything).of_eq_ok propagated).2.2
      rfl
  refine Ensures.same.bind fun peak found => ?_
  dsimp only
  split
  · refine Ensures.same.bind fun s₂ regenerated => ?_
    have reached₂ : Reached s s₂ := (reached.tail (.turn idle found)).tail (.regenerate regenerated)
    split
    · exact .pure reached₂
    · exact last reached₂
  · refine Ensures.bind (P := Reached s) (.pure reached) fun s₂ reached₂ => ?_
    split
    · exact .pure reached₂
    · exact last reached₂

/-- An empty pool is refilled. -/
lemma Steady.refill (footing : Footing p F base) (h : s.Steady p F base kind) (fresh : Bool) :
    (s.refill fresh).Ensures (Reached s) := by
  have last : ∀ {s₁ : Solver ρ α}, Reached s s₁ →
      (if s₁.pool.isEmpty then s₁.unstick else return s₁ : Checked (Solver ρ α)).Ensures
        (Reached s) := by
    intro s₁ reached
    split
    · exact ((h.reached footing reached).unstick footing).imp fun s' => reached.trans
    · exact .pure reached
  unfold Solver.refill
  split
  · exact .pure .refl
  · split
    · exact Ensures.same.bind fun s₁ answer => last (.single (.regenerate answer))
    · split
      · exact Ensures.same.bind fun s₁ answer => last (.single (.nextBatch answer))
      · exact last .refl

/-- An iteration is made of operations. -/
lemma Steady.iterate (footing : Footing p F base) (h : s.Steady p F base kind) :
    s.iterate.Ensures (Reached s) := by
  unfold Solver.iterate
  extract_lets iteration counters s₁ s₂ complete insert look
  have reached₂ : Reached s s₂ := by
    dsimp only [s₂]
    split
    · exact .single (.keep (core_note s₁ _))
    · exact .single (.keep rfl)
  have inserted : ∀ {moved s₃}, Reached s s₃ → (insert (moved, s₃)).Ensures (Reached s) := by
    intro moved s₃ reached
    refine ((h.reached footing reached).refill footing _).bind fun s₄ refilled => ?_
    have reached₄ := reached.trans refilled
    refine ((h.reached footing reached₄).insertDrawn complete).bind fun s₅ drawn => .pure ?_
    have reached₅ := reached₄.trans drawn
    split
    · exact reached₅.tail (.keep rfl)
    · exact reached₅
  have looked : ∀ {s₃}, Reached s s₃ → (look s₃).Ensures (Reached s) := by
    intro s₃ reached
    dsimp only [look]
    split
    · exact Ensures.same.bind fun r answer => inserted (reached.tail (.followPeak answer))
    · exact inserted reached
  split
  · exact Ensures.same.bind fun s₃ answer => looked (reached₂.tail (.propagate answer))
  · exact looked reached₂

/-- The state after a number of iterations. -/
def iterations : Nat → Solver ρ α → Checked (Solver ρ α)
  | 0, s => .ok s
  | count + 1, s => do iterations count (← s.iterate)

/-- Iterations are made of operations. -/
lemma Steady.iterations (footing : Footing p F base) {count : Nat} :
    ∀ {s : Solver ρ α}, s.Steady p F base kind → (iterations count s).Ensures (Reached s) := by
  induction count with
  | zero => exact fun _ => .pure .refl
  | succ count ih =>
    intro s h
    unfold Solver.iterations
    refine (h.iterate footing).bind fun s₁ reached => ?_
    exact (ih (h.reached footing reached)).imp fun s' => reached.trans

/-- The iterations of a run keep what each iteration keeps, if the trace plays no part in it. -/
lemma iterateUntilDone_ensures {Inv : Solver ρ α → Prop}
    (traced : ∀ {s : Solver ρ α} (trace : ScoreTrace α), Inv s → Inv { s with trace })
    (iterated : ∀ {s : Solver ρ α}, Inv s → s.iterate.Ensures Inv) (elapsed : Nat → Nat) {rounds : Nat} :
    ∀ {s : Solver ρ α}, Inv s → (s.iterateUntilDone elapsed rounds).Ensures Inv := by
  induction rounds with
  | zero => exact fun h => .pure h
  | succ rounds ih =>
    intro s h
    unfold Solver.iterateUntilDone
    dsimp only
    split
    · exact .pure h
    · exact (iterated (traced _ h)).bind fun s₁ => ih

/-- The iterations of a run are made of operations. -/
lemma Steady.iterateUntilDone (footing : Footing p F base) (h : s.Steady p F base kind)
    (elapsed : Nat → Nat) {rounds : Nat} :
    (s.iterateUntilDone elapsed rounds).Ensures (Reached s) :=
  iterateUntilDone_ensures (fun _ reached => reached.tail (.keep rfl))
    (fun reached => ((h.reached footing reached).iterate footing).imp fun _ => reached.trans) elapsed .refl

/-- A run is made of operations. -/
lemma Steady.run (footing : Footing p F base) (h : s.Steady p F base kind) (elapsed : Nat → Nat)
    (rounds : Nat) : (s.run elapsed rounds).Ensures (Reached s) := by
  unfold Solver.run
  have begun : ∀ event, Reached s (s.note event) := fun event => .single (.keep (core_note s event))
  refine ((h.reached footing (begun _)).iterateUntilDone footing elapsed).bind fun s₁ ran => ?_
  refine Ensures.same.bind fun s₂ answer => .pure ?_
  exact (((begun _).trans ran).tail (.updateBest answer)).tail (.keep (core_note s₂ _))

/-- What may be asked of a search. -/
inductive Call where
  | propagate
  | updateBest
  | reset
  | unstick
  | iterate
  | run (elapsed : Nat → Nat) (rounds : Nat)

/-- The state after a call. -/
def call (s : Solver ρ α) : Call → Checked (Solver ρ α)
  | .propagate => s.propagate .everything
  | .updateBest => s.updateBest
  | .reset => s.reset
  | .unstick => s.unstick
  | .iterate => s.iterate
  | .run elapsed rounds => s.run elapsed rounds

/-- Calls are made of operations. -/
lemma Steady.call (footing : Footing p F base) (h : s.Steady p F base kind) (c : Call) :
    (s.call c).Ensures (Reached s) := by
  cases c with
  | propagate => exact Ensures.same.imp fun _ answer => .single (.propagate answer)
  | updateBest => exact Ensures.same.imp fun _ answer => .single (.updateBest answer)
  | reset => exact Ensures.same.imp fun _ answer => .single (.reset answer)
  | unstick => exact h.unstick footing
  | iterate => exact h.iterate footing
  | run elapsed rounds => exact h.run footing elapsed rounds

/-- A search stays among the states, whatever is asked of it. -/
def Closed (states : Solver ρ α → Prop) : Prop :=
  ∀ s, states s → ∀ c : Call, (s.call c).Ensures states

/-- A search stays among the states that are reached from an intact one. -/
lemma Steady.closed (footing : Footing p F base) (h : first.Steady p F base kind) :
    Closed (Reached first) := fun _ reached c =>
  ((h.reached footing reached).call footing c).imp fun _ => reached.trans

/-! ## The first state -/

omit [RandomSource ρ] [Scalar α] in
/-- If the lags are accepted, none is shorter than the duration of its source. -/
lemma le_of_checkLags {durations : Array Int} {precedences : List Precedence}
    (h : (checkLags durations precedences : Verdict (SolverError α) Unit).Accepts ()) :
    ∀ q ∈ precedences, valueAt durations q.source ≤ q.lag := by
  induction precedences with
  | nil => exact fun q member => absurd member List.not_mem_nil
  | cons q rest ih =>
    unfold checkLags at h
    obtain ⟨duration, found, h⟩ := Verdict.accepts_bind.1 h
    obtain ⟨long, others⟩ := Verdict.accepts_guard.1 h
    have entry := fetch_eq_ok.1 (Verdict.accepts_lift.1 found)
    have same : valueAt durations q.source = duration := by
      unfold valueAt
      rw [Array.getD_eq_getD_getElem?, entry]
      rfl
    intro q' member
    rcases List.mem_cons.1 member with rfl | member
    · rw [same]
      exact not_lt.1 long
    · exact ih others q' member

/-- A search begins with the network of the precedences, with all jobs at their earliest starts, and turned
to the range where the cost is highest then. -/
lemma exists_of_new {config : Config α}
    (started : (Solver.new p config : Verdict _ (Solver ρ α)).Accepts s) :
    ∃ network unplaced profile active,
      (checkLags p.durations p.precedences : Verdict (SolverError α) Unit).Accepts () ∧
      Network.ofProblem p = .ok network ∧
      (Profile.empty p config.profile config.maxArrayHorizon).Accepts unplaced ∧
      placeAll (Bounds.ofProblem p) (List.range (Bounds.ofProblem p).numJobs) unplaced = .ok profile ∧
      profile.maximumRange = .ok active ∧
      s =
        { problem := p
          config
          random := RandomSource.ofSeed config.seed
          base := network
          network
          bounds := Bounds.ofProblem p
          profile
          scorer := .ofConfig config p
          pool := .empty
          deletion := .empty p.numJobs config.deletionDepth config.deletionPenalty
          active
          deletionsLeft := config.deletionsBeforeReset
          lastComplete := 0
          lastRangeCheck := 0
          exhausted := false
          best := .ofStarts (Bounds.ofProblem p).early.value profile.maximum
          counters := .zero
          trace := .empty (config.traceInterval.map (· * nanosPerMilli))
          log := #[] } := by
  unfold Solver.new at started
  split at started
  · obtain ⟨_, impossible, -⟩ := Verdict.accepts_bind.1 started
    exact absurd impossible Verdict.not_accepts_throw
  obtain ⟨_, lags, started⟩ := Verdict.accepts_bind.1 started
  obtain ⟨network, made, started⟩ := Verdict.accepts_bind.1 started
  obtain ⟨unplaced, profiled, started⟩ := Verdict.accepts_bind.1 started
  obtain ⟨profile, placed, started⟩ := Verdict.accepts_bind.1 started
  obtain ⟨active, found, started⟩ := Verdict.accepts_bind.1 started
  exact ⟨network, unplaced, profile, active, lags, Verdict.accepts_lift.1 made,
    Verdict.accepts_adapt.1 profiled, Verdict.accepts_lift.1 placed, Verdict.accepts_lift.1 found,
    (Verdict.accepts_pure.1 started).symm⟩

/-- The first state of a search is intact, and it is what a search has when it starts over. -/
lemma steady_new {config : Config α} (built : p.Built) (timely : p.Timely)
    (accepted : (Solver.new p config : Verdict _ (Solver ρ α)).Accepts s) :
    ∃ base, Footing p (built.frame timely) base ∧
      s.Steady p (built.frame timely) base s.profile.kindName ∧ s.Renewed p base ∧
      s.scorer = .ofConfig config p ∧
      s.deletion = .empty p.numJobs config.deletionDepth config.deletionPenalty ∧
      s.best = .ofStarts s.bounds.early.value s.profile.maximum := by
  obtain ⟨network, unplaced, profile, active, lags, made, profiled, placed, found, rfl⟩ :=
    exists_of_new accepted
  obtain ⟨-, based⟩ := (built.base timely).of_eq_ok made
  have draft := Draft.kept_start based (Session.veil (built.frame timely) active)
  have footing : Footing p (built.frame timely) network :=
    ⟨⟨built, timely, based⟩, le_of_checkLags lags⟩
  have holds : profile.Holds p (earliest (built.frame timely) (Bounds.ofProblem p)) := by
    refine (placements_answer footing.toBasis draft.consistent (.empty profiled)
      List.nodup_range fun v => ?_).of_eq_ok placed
    rw [List.mem_range, draft.consistent.numJobs]
  refine ⟨network, footing, ?_, ?_, rfl, rfl, rfl⟩
  · exact ⟨rfl, rfl, grown_base built based, draft.consistent, draft.base, holds, rfl,
      CandidatePool.orderly_empty _, built.size_frame timely ▸ DeletionSearch.sized_empty _ _ _⟩
  · exact ⟨rfl, rfl, rfl, found⟩

end Solver

end Leveling
