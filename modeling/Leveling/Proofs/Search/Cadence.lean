import Leveling.Proofs.Search.Calls
import Leveling.Proofs.Search.Exhaustion

/-!
# Deferred work is taken up on schedule

Every so many iterations a search takes up all deferred jobs before it does anything else, and the
insertion at the end of such an iteration defers none.  What happens in between is tidy, so it leaves no new
work behind.

The complete passes fall on the iterations whose numbers are multiples of the distance that is set.  What
carries this is that the last of them is always recorded as the latest multiple (`Punctual`).
-/

namespace Leveling

open Checked

namespace Solver

variable {ρ α : Type} [RandomSource ρ] [Scalar α] {p : Problem α} {F : Frame} {base : Network}
  {kind : String} {s s₁ s' : Solver ρ α} {source target : Nat}

/-! ## Complete passes -/

/-- The latest number until `count` whose iteration makes a complete pass: a multiple of the distance, or
`count` itself if every iteration makes one. -/
def latest (distance count : Nat) : Nat :=
  if distance = 0 then count else distance * (count / distance)

/-- The latest complete pass is not in the future. -/
lemma latest_le (distance count : Nat) : latest distance count ≤ count := by
  unfold latest
  split
  · exact le_rfl
  · exact Nat.mul_div_le count distance

/-- The latest number is the present one if it is a multiple of the distance. -/
lemma latest_of_dvd {distance count : Nat} (due : distance = 0 ∨ distance ∣ count) :
    latest distance count = count := by
  unfold latest
  split
  · rfl
  · rename_i positive
    exact Nat.mul_div_cancel' (due.resolve_left positive)

/-- The next iteration makes a complete pass if the distance has been covered since the latest one. -/
lemma latest_succ (distance count : Nat) : latest distance (count + 1) =
    if distance ≤ count + 1 - latest distance count then count + 1 else latest distance count := by
  by_cases every : distance = 0
  · subst every
    rfl
  · have parts := Nat.div_add_mod count distance
    have short : count % distance + 1 ≤ distance := Nat.mod_lt count (Nat.pos_of_ne_zero every)
    have number : count + 1 = distance * (count / distance) + (count % distance + 1) := by omega
    have passed : count + 1 - distance * (count / distance) = count % distance + 1 := by omega
    have covered : distance ∣ count + 1 ↔ distance ≤ count % distance + 1 := by
      rw [number, Nat.dvd_add_right (Nat.dvd_mul_right _ _)]
      refine ⟨Nat.le_of_dvd (Nat.succ_pos _), fun full => ?_⟩
      rw [short.antisymm full]
    unfold latest
    rw [if_neg every, if_neg every, passed, Nat.succ_div]
    by_cases due : distance ∣ count + 1
    · rw [if_pos due, if_pos (covered.1 due), Nat.mul_add, Nat.mul_one, number,
        short.antisymm (covered.1 due)]
    · rw [if_neg due, if_neg (due ∘ covered.2), Nat.add_zero]

/-- The settings are the given ones, the last complete pass is recorded as the latest one that was due,
and if that was in the last iteration nothing is deferred. -/
structure Punctual (config : Config α) (s : Solver ρ α) : Prop where
  settings : s.config = config
  last : s.lastComplete = latest config.completeAfter s.counters.iterations
  idle : s.lastComplete = s.counters.iterations → s.Idle

omit [RandomSource ρ] [Scalar α] in
/-- Tidy operations keep a search punctual. -/
lemma Punctual.tidy {config : Config α} (h : s.Punctual config) (tidy : Tidy s s') :
    s'.Punctual config := by
  obtain ⟨clock, idle⟩ := tidy
  simp only [Solver.clock, Prod.mk.injEq] at clock
  obtain ⟨same, iterations, lastComplete⟩ := clock
  exact ⟨same.trans h.settings, by rw [lastComplete, iterations, h.last],
    fun now => idle (h.idle (by rw [← lastComplete, ← iterations, now]))⟩

/-- What holds during an iteration that began in the state `s`: it is not over yet, and nothing is
deferred if it makes a complete pass. -/
structure During (s : Solver ρ α) (complete : Bool) (s' : Solver ρ α) : Prop where
  clock : s'.clock = s.clock
  idle : complete = true → s'.Idle

omit [RandomSource ρ] [Scalar α] in
/-- During an iteration operations are tidy. -/
lemma During.tidy {complete : Bool} (h : During s complete s₁) (tidy : Tidy s₁ s') :
    During s complete s' :=
  ⟨tidy.clock.trans h.clock, fun takes => tidy.idle (h.idle takes)⟩

omit [RandomSource ρ] [Scalar α] in
/-- At the end of an iteration a search is punctual, with a record of the complete pass if there was one. -/
lemma Punctual.finish {config : Config α} {complete : Bool} (h : s.Punctual config)
    (began : s₁.clock = (s.config, s.counters.iterations + 1, s.lastComplete))
    (takes : complete = decide
      (config.completeAfter ≤ s.counters.iterations + 1 - latest config.completeAfter s.counters.iterations))
    (during : During s₁ complete s') :
    (if complete then { s' with lastComplete := s.counters.iterations + 1 } else s').Punctual config := by
  have clock := during.clock.trans began
  simp only [Solver.clock, Prod.mk.injEq] at clock
  obtain ⟨settings, iterations, lastComplete⟩ := clock
  have next := latest_succ config.completeAfter s.counters.iterations
  by_cases passes : complete = true
  · rw [if_pos passes]
    rw [takes, decide_eq_true_eq] at passes
    rw [if_pos passes] at next
    exact ⟨settings.trans h.settings, by rw [iterations, next], fun _ => during.idle (by simpa [takes])⟩
  · rw [if_neg passes]
    rw [takes, decide_eq_true_eq] at passes
    rw [if_neg passes] at next
    refine ⟨settings.trans h.settings, by rw [iterations, lastComplete, next, h.last], fun now => ?_⟩
    have early := latest_le config.completeAfter s.counters.iterations
    rw [iterations, lastComplete, h.last] at now
    omega

/-- **Step.**  An iteration keeps a search punctual, and is counted. -/
lemma Punctual.iterate {config : Config α} (h : s.Punctual config) :
    s.iterate.Ensures fun s' => s'.Punctual config ∧
      s'.counters.iterations = s.counters.iterations + 1 := by
  unfold Solver.iterate
  extract_lets iteration counters s₁ s₂ complete insert look
  have began : s₂.clock = (s.config, s.counters.iterations + 1, s.lastComplete) := by
    dsimp only [s₂]
    split
    · exact ((Tidy.refl s₁).note _).clock
    · rfl
  have takes : complete = decide (config.completeAfter ≤
      s.counters.iterations + 1 - latest config.completeAfter s.counters.iterations) := by
    simp only [Solver.clock, Prod.mk.injEq] at began
    obtain ⟨settings, -, lastComplete⟩ := began
    dsimp only [complete, iteration]
    rw [settings, lastComplete, h.settings, h.last]
  have inserted : ∀ {moved s₃}, During s₂ complete s₃ → (insert (moved, s₃)).Ensures fun s' =>
      s'.Punctual config ∧ s'.counters.iterations = s.counters.iterations + 1 := by
    intro moved s₃ during
    refine (refill_tidy s₃ _).bind fun s₄ refilled => ?_
    have during₄ := during.tidy refilled
    refine (insertDrawn_ensures s₄ complete).bind fun s₅ ⟨clock, _, drained⟩ => .pure ?_
    have during₅ : During s₂ complete s₅ :=
      ⟨clock.trans during₄.clock, fun takes => drained takes (during₄.idle takes)⟩
    refine ⟨h.finish began takes during₅, ?_⟩
    have counted := congrArg (fun clock => clock.2.1) (during₅.clock.trans began)
    split <;> exact counted
  have looked : ∀ {s₃}, During s₂ complete s₃ → (look s₃).Ensures fun s' =>
      s'.Punctual config ∧ s'.counters.iterations = s.counters.iterations + 1 := by
    intro s₃ during
    dsimp only [look]
    split
    · exact (followPeak_quiet s₃).bind fun r followed => inserted (during.tidy followed.toTidy)
    · exact inserted during
  split
  · exact (propagate_quiet s₂ .everything).bind fun s₃ ⟨quiet, drained⟩ =>
      looked ⟨quiet.clock, fun _ => drained rfl⟩
  · rename_i incomplete
    exact looked ⟨rfl, fun takes => absurd takes incomplete⟩

/-- **Run.**  The iterations of a run keep a search punctual. -/
lemma Punctual.iterateUntilDone {config : Config α} (h : s.Punctual config) (elapsed : Nat → Nat)
    {rounds : Nat} : (s.iterateUntilDone elapsed rounds).Ensures (Punctual config) :=
  iterateUntilDone_ensures (fun _ h => h.tidy (tidy_of_same rfl rfl))
    (fun h => h.iterate.imp fun _ => And.left) elapsed h

/-- **Step.**  A call keeps a search punctual. -/
lemma Punctual.call {config : Config α} (h : s.Punctual config) (c : Call) :
    (s.call c).Ensures (Punctual config) := by
  cases c with
  | propagate => exact (propagate_quiet s _).imp fun _ ⟨quiet, _⟩ => h.tidy quiet.toTidy
  | updateBest => exact (updateBest_quiet s).imp fun _ ⟨quiet, _⟩ => h.tidy quiet.toTidy
  | reset => exact (reset_quiet s).imp fun _ quiet => h.tidy quiet.toTidy
  | unstick => exact (unstick_tidy s).imp fun _ => h.tidy
  | iterate => exact h.iterate.imp fun _ => And.left
  | run elapsed rounds =>
    change (s.run elapsed rounds).Ensures _
    unfold Solver.run
    have begun := h.tidy ((Tidy.refl s).note
      (.begun s.problem.numJobs s.profile.kindName s.config.scorer s.best.peak))
    refine (begun.iterateUntilDone elapsed).bind fun s₁ h₁ => ?_
    exact (updateBest_quiet s₁).bind fun s₂ ⟨quiet, _⟩ => .pure (h₁.tidy (quiet.note _).toTidy)

/-- A search that begins is punctual. -/
lemma punctual_new {config : Config α}
    (started : (Solver.new p config : Verdict _ (Solver ρ α)).Accepts s) : s.Punctual config := by
  obtain ⟨_, _, _, _, -, -, -, -, -, rfl⟩ := exists_of_new started
  exact ⟨rfl, (latest_of_dvd (.inr (Nat.dvd_zero _))).symm, fun _ side => by cases side <;> rfl⟩

/-! ## Nothing is deferred when a pass is due -/

/-- If the number of iterations is a multiple of the distance between complete passes, or every iteration
makes one, then nothing is deferred, and the check finds no defect in the bounds as they are. -/
def OnSchedule (config : Config α) (s : Solver ρ α) : Prop :=
  config.completeAfter = 0 ∨ config.completeAfter ∣ s.counters.iterations →
    s.Idle ∧ (s.bounds.check s.network).Accepts ()

omit [RandomSource ρ] in
/-- Punctual states are on schedule. -/
lemma Punctual.onSchedule {config : Config α} (h : s.Punctual config) (footing : Footing p F base)
    (steady : s.Steady p F base kind) : s.OnSchedule config := by
  intro due
  have idle := h.idle (h.last.trans (latest_of_dvd due))
  exact ⟨idle, steady.consistent.check (fits_of_lags fun arc => footing.lag_le steady.grown arc) idle⟩

/-- **Cadence.**  Whatever was asked of a search for an accepted instance before, it is on schedule, it is on
schedule after one more iteration, which is counted once, and it is on schedule after each of the
iterations of a run.  This holds whatever the options are and whatever is drawn at random, and a search for
a small instance does answer. -/
theorem deferred_work_drained {jobs : Array (Job α)} {resources : List (Resource α)}
    {given : List Precedence} {config : Config α}
    (accepted : (Problem.build jobs resources given).Accepts p) (timely : p.Timely)
    (started : (Solver.new p config : Verdict _ (Solver ρ α)).Accepts first) :
    (∀ calls : List Call, (calls.foldlM call first).Ensures fun s => s.OnSchedule config ∧
      (s.iterate.Ensures fun s' =>
        s'.counters.iterations = s.counters.iterations + 1 ∧ s'.OnSchedule config) ∧
      ∀ event elapsed rounds,
        ((s.note event).iterateUntilDone elapsed rounds).Ensures (OnSchedule config)) ∧
      (Small p config → Responsive first) := by
  have built := Problem.built_of_build accepted
  obtain ⟨base, footing, steady, -⟩ := steady_new built timely started
  refine ⟨fun calls => ?_, fun small => responsive built small started⟩
  have states : (calls.foldlM call first).Ensures fun s => s.Punctual config ∧ Reached first s :=
    .foldlM _ (fun s ⟨h, reached⟩ c _ => (h.call c).and (steady.closed footing s reached c))
      ⟨punctual_new started, .refl⟩
  refine states.imp fun s ⟨h, reached⟩ => ?_
  have steady₁ := steady.reached footing reached
  refine ⟨h.onSchedule footing steady₁, ?_, fun event elapsed rounds => ?_⟩
  · refine (h.iterate.and (steady₁.iterate footing)).imp fun s' ⟨⟨h', counted⟩, reached'⟩ => ?_
    exact ⟨counted, h'.onSchedule footing (steady₁.reached footing reached')⟩
  · have noted := h.tidy ((Tidy.refl s).note event)
    have steady₂ := steady₁.reached footing (.single (.keep (core_note s event)))
    refine ((noted.iterateUntilDone elapsed).and (steady₂.iterateUntilDone footing elapsed)).imp ?_
    exact fun s' ⟨h', reached'⟩ => h'.onSchedule footing (steady₂.reached footing reached')

/-- Four jobs, of which one has to wait for another one. -/
def handover : Problem ℚ where
  jobs := #[⟨2, 0, 9, [1]⟩, ⟨2, 0, 9, [1]⟩, ⟨2, 0, 9, [1]⟩, ⟨2, 0, 9, [1]⟩]
  resources := [.linear 1]
  precedences := [⟨2, 1, 2⟩]
  order := [0, 2, 3, 1]
  earliestStart := #[0, 2, 0, 0]
  latestFinish := #[9, 9, 7, 9]

/-- The four jobs are accepted. -/
lemma handover_accepted :
    (Problem.build handover.jobs handover.resources [⟨2, 1, 2⟩]).Accepts handover := by
  have merged : Precedence.merge [⟨2, 1, 2⟩] = [⟨2, 1, 2⟩] := by
    rw [Precedence.merge, List.mergeSort_singleton]
    rfl
  unfold Problem.build
  rw [merged]
  with_unfolding_all rfl

/-- No deadline of the four jobs is late. -/
lemma handover_timely : handover.Timely := by
  intro job member
  simp only [handover, List.mem_cons, List.not_mem_nil, or_false, or_self] at member
  rw [member]
  decide

/-- Options with a complete pass in every second iteration, and with batches of one candidate. -/
def alternating : Config ℚ := { brief with completeAfter := 2, batchSize := 1 }

/-- A search for the four jobs in the beginning, after one iteration, and after two. -/
def handoverStates :
    Verdict (SolverError ℚ) (Solver ChaCha ℚ × Solver ChaCha ℚ × Solver ChaCha ℚ) := do
  let first ← Solver.new handover alternating
  let second ← (first.iterate : Checked (Solver ChaCha ℚ))
  let third ← (second.iterate : Checked (Solver ChaCha ℚ))
  return (first, second, third)

/-- A search for the four jobs defers a job in the first iteration, and takes it up in the second one. -/
theorem deferred_work_drained_handover :
    (Problem.build handover.jobs handover.resources [⟨2, 1, 2⟩]).Accepts handover ∧ handover.Timely ∧
      ∃ first second third : Solver ChaCha ℚ, (Solver.new handover alternating).Accepts first ∧
        first.iterate = .ok second ∧ second.bounds.hasDeferred = true ∧
        second.iterate = .ok third ∧ third.counters.iterations = 2 ∧ third.Idle ∧
          (third.bounds.check third.network).Accepts () := by
  refine ⟨handover_accepted, handover_timely, ?_⟩
  obtain ⟨⟨first, second, third⟩, states, test⟩ := Verdict.exists_accepts_passes
    (show handoverStates.passes (fun r => r.2.1.bounds.hasDeferred &&
      decide (r.2.2.counters.iterations = 2)) = true by decide +kernel)
  simp only [Bool.and_eq_true, decide_eq_true_eq] at test
  obtain ⟨deferred, iterations⟩ := test
  unfold handoverStates at states
  obtain ⟨first', started, states⟩ := Verdict.accepts_bind.1 states
  obtain ⟨second', once, states⟩ := Verdict.accepts_bind.1 states
  obtain ⟨third', twice, states⟩ := Verdict.accepts_bind.1 states
  cases Verdict.accepts_pure.1 states
  have iterated := Verdict.accepts_lift.1 once
  have again := Verdict.accepts_lift.1 twice
  have called : [Call.iterate].foldlM call first = .ok second := by
    rw [List.foldlM_cons, show first.call .iterate = .ok second from iterated]
    rfl
  obtain ⟨cadence, -⟩ := deferred_work_drained handover_accepted handover_timely started
  obtain ⟨-, next, -⟩ := cadence _ _ called
  obtain ⟨-, onSchedule⟩ := next _ again
  obtain ⟨idle, verified⟩ := onSchedule (.inr (iterations ▸ Nat.dvd_refl 2))
  exact ⟨first, second, third, started, iterated, deferred, again, iterations, idle, verified⟩

end Solver

end Leveling
