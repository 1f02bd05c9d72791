import Leveling.Proofs.Search.Operations
import Leveling.Proofs.Search.Promises

/-!
# Making room for a pair

Two jobs that run at the same time could run one after the other if the first one started earlier or the
second one might finish later.  Up to half of their overlap is asked of the first job and the rest of the
second one, each in a deletion search of its own.  Both searches look at the network as it is, and each
promises only what the deletion of its own arcs gains.  But the deletion of further arcs never tightens a
bound, so what both have promised is gained when the arcs of both plans are deleted together.

This needs only that nothing is deferred and that the check of the bounds finds no defect.  It does not
matter how the network has come about, nor where the jobs are in the profile.
-/

namespace Leveling

open Checked Network

/-! ## Room for the searches -/

section

variable {α : Type} {p : Problem α} {F : Frame} {base net : Network} {b : Bounds} {side : Side}
  {hidden : Side → Nat → Int → Prop}

section

variable (basis : Basis p F base)
  (same : ∀ side, (b.table side).base = ((Bounds.ofProblem p).table side).base) (side : Side)

include basis same

/-- The base bounds lie between the limits and the bounds that leave no room. -/
lemma Basis.base_mem (v : Nat) : F.floor side v ≤ F.heights side (b.table side).base v ∧
    F.heights side (b.table side).base v ≤ F.ceiling side v := by
  have sound := basis.base.sound side
  rw [same]
  exact ⟨sound.above v, sound.below basis.base.roomy v⟩

/-- There is a base bound for each job. -/
lemma Basis.base_size : (b.table side).base.size = F.size := by
  rw [same]
  exact (basis.base.sound side).size

/-- The base bound of a job is fetched. -/
lemma Basis.fetch_base {v : Nat} (hv : v < F.size) :
    fetch (b.table side).base v = .ok (valueAt (b.table side).base v) :=
  fetch_valueAt (lt_of_lt_of_eq hv (basis.base_size same side).symm)

end

/-- If no deadline is late, the arithmetic answers up to `2 ^ 30` above exact bounds. -/
lemma Consistent.carries (h : Consistent F hidden net b) (modest : F.Modest)
    (nothing : ∀ side, (b.table side).deferred = []) :
    Carries F net side fun v => F.heights side (b.table side).value v + 1073741824 := by
  intro u w lag arc height lower upper
  have ends := h.roomy.linked.lt_of_leads arc
  rw [h.roomy.size] at ends
  have nonneg := h.roomy.nonneg_leads arc
  have demanded := (h.settled side).arcs (nothing side) arc
  have room := (h.settled side).sound.below h.roomy u
  have room' := (h.settled side).sound.below h.roomy w
  have deadline := modest u
  have deadline' := modest w
  have release := F.release_nonneg u
  have release' := F.release_nonneg w
  have duration := F.duration_nonneg u
  have duration' := F.duration_nonneg w
  have window := F.room w
  have least : leastTime = -9223372036854775808 := rfl
  have greatest : greatestTime = 9223372036854775807 := rfl
  unfold Crosses
  cases side with
  | early =>
    dsimp only [Frame.floor, Frame.height, Frame.heights, Frame.limit, Frame.ceiling, Side.startOf,
      Bounds.table] at *
    exact ⟨rfl, addTime_of_mem (by omega) (by omega)⟩
  | late =>
    dsimp only [Frame.floor, Frame.height, Frame.heights, Frame.limit, Frame.ceiling, Frame.boundOf,
      Side.startOf, Side.origin, Side.carry, Bounds.table] at *
    rw [fetch_valueAt ends.1, fetch_valueAt ends.2, ok_bind, subTime_of_mem (by omega) (by omega),
      subTime_of_mem (by omega) (by omega), ok_bind, ok_bind, addTime_of_mem (by omega) (by omega)]
    exact ⟨congrArg Except.ok (by omega), congrArg Except.ok (by omega)⟩

/-- If no deadline is late, a deletion search may rely on exact bounds, and it is safe. -/
lemma Consistent.ground (h : Consistent F hidden net b) (modest : F.Modest)
    (nothing : ∀ side, (b.table side).deferred = []) (basis : Basis p F base)
    (same : ∀ side, (b.table side).base = ((Bounds.ofProblem p).table side).base) (side : Side)
    (safe : Prop) : DeletionSearch.Ground safe F net b side
      fun v => F.heights side (b.table side).value v + 1073741824 := by
  have settled := h.settled side
  have window : ∀ v, F.ceiling side v - F.floor side v ≤ 1073741824 := fun v => by
    have deadline := modest v
    have release := F.release_nonneg v
    have duration := F.duration_nonneg v
    rw [F.ceiling_sub_floor]
    omega
  have above := settled.sound.above
  refine ⟨h.roomy.linked, h.roomy.size, h.roomy.acyclic, h.of.durations, basis.base_size same side,
    settled.sound.size, fun _ => ⟨fun v => (basis.base_mem same side v).1, fun v => ?_, above,
      fun v => ?_, fun arc => ?_, h.carries modest nothing, fun v => ?_⟩⟩
  · have upper := (basis.base_mem same side v).2
    have window := window v
    have above := above v
    omega
  · omega
  · have demanded := settled.arcs (nothing side) arc
    omega
  · have window := window v
    have below := settled.sound.below h.roomy v
    unfold greatestTime
    omega

/-- Deleting the arcs makes room for the second job behind the first one. -/
def MakesRoom (F : Frame) (net : Network) (refs : List ArcRef) (source target : Nat) : Prop :=
  ∀ net' early late, net.Deleted refs net' → Sound F net' .early early → Sound F net' .late late →
    valueAt early source + valueAt F.durations source + valueAt F.durations target ≤
      valueAt late target

end

namespace Solver

variable {ρ α : Type} [RandomSource ρ] [Scalar α] {p : Problem α} {F : Frame} {base : Network}
  {s s' s₁ s₂ : Solver ρ α} {source target n : Nat}

/-! ## States at rest -/

/-- A state with exact bounds in which nothing is deferred, wherever the jobs are in its profile. -/
structure Resting (p : Problem α) (F : Frame) (s : Solver ρ α) : Prop where
  consistent : Consistent F (fun _ _ _ => False) s.network s.bounds
  fits : Fits F s.network F.deadlines
  idle : s.Idle
  clean : s.network.flagged = 0
  base_value : ∀ side, (s.bounds.table side).base = ((Bounds.ofProblem p).table side).base
  placed : ∃ σ, s.profile.Holds p σ
  deletion : s.deletion.Sized F.size
  penalty : s.deletion.penalty < 4294967296

/-- Deletion searches were made in a state, and nothing else has happened to it. -/
structure Searched (n : Nat) (s s₁ : Solver ρ α) : Prop where
  rest : ∃ log, s₁ = { s with deletion := s₁.deletion, log }
  sized : s₁.deletion.Sized n
  penalty : s₁.deletion.penalty = s.deletion.penalty

omit [RandomSource ρ] in
/-- Before the first search. -/
lemma Resting.searched (h : s.Resting p F) : Searched F.size s s := ⟨⟨s.log, rfl⟩, h.deletion, rfl⟩

omit [RandomSource ρ] [Scalar α] in
/-- Searches before and searches afterwards. -/
lemma Searched.trans (h : Searched n s s₁) (h' : Searched n s₁ s₂) : Searched n s s₂ := by
  obtain ⟨⟨log, same⟩, -, penalty⟩ := h
  obtain ⟨⟨log', same'⟩, sized, penalty'⟩ := h'
  refine ⟨⟨log', ?_⟩, sized, penalty'.trans penalty⟩
  rw [same', same]

omit [RandomSource ρ] [Scalar α] in
/-- An event is logged. -/
lemma Searched.note (h : Searched n s s₁) (event : LogEvent α) : Searched n s (s₁.note event) := by
  refine h.trans ⟨?_, ?_, ?_⟩
  · unfold Solver.note
    split
    · exact ⟨_, rfl⟩
    · exact ⟨_, rfl⟩
  · rw [deletion_note]
    exact h.sized
  · rw [deletion_note]

section

omit [RandomSource ρ] [Scalar α]

/-- The network is as it was. -/
lemma Searched.network (h : Searched n s s₁) : s₁.network = s.network := by
  obtain ⟨log, same⟩ := h.rest
  rw [same]

/-- The bounds are as they were. -/
lemma Searched.bounds (h : Searched n s s₁) : s₁.bounds = s.bounds := by
  obtain ⟨log, same⟩ := h.rest
  rw [same]

/-- The profile is as it was. -/
lemma Searched.profile (h : Searched n s s₁) : s₁.profile = s.profile := by
  obtain ⟨log, same⟩ := h.rest
  rw [same]

/-- The pool is as it was. -/
lemma Searched.pool (h : Searched n s s₁) : s₁.pool = s.pool := by
  obtain ⟨log, same⟩ := h.rest
  rw [same]

end

omit [RandomSource ρ] in
/-- Searches leave a state at rest. -/
lemma Resting.after (h : s.Resting p F) (searched : Searched F.size s s₁) : s₁.Resting p F := by
  obtain ⟨⟨log, same⟩, sized, penalty⟩ := searched
  rw [same] at sized penalty ⊢
  exact ⟨h.consistent, h.fits, h.idle, h.clean, h.base_value, h.placed, sized,
    penalty.trans_lt h.penalty⟩

omit [RandomSource ρ] in
/-- The pool of a state at rest may be replaced. -/
lemma Resting.withPool (h : s.Resting p F) (pool : CandidatePool α) :
    Resting p F { s with pool } :=
  ⟨h.consistent, h.fits, h.idle, h.clean, h.base_value, h.placed, h.deletion, h.penalty⟩

/-! ## Pairs -/

section

variable (basis : Basis p F base) (modest : F.Modest) (h : s.Resting p F)

include h

omit [RandomSource ρ] in
/-- A search for a short move can pay for all that is missing. -/
lemma Resting.affordable {amount : Int} (short : amount ≤ 1073741824)
    (few : s.network.size ≤ 9223372036854775808) :
    DeletionSearch.Affordable s.network s.deletion.penalty amount ∧ amount ≤ greatestTime := by
  have fine : s.deletion.penalty * amount.toNat ≤ 4294967296 * 1073741824 :=
    Nat.mul_le_mul (Nat.le_of_lt h.penalty) (by omega)
  unfold DeletionSearch.Affordable greatestTime
  constructor <;> omega

include basis modest

omit [RandomSource ρ] in
/-- Starts and finishes of a state at rest are neither negative nor late. -/
lemma Resting.early_short (v : Nat) : 0 ≤ valueAt F.durations v ∧
    0 ≤ valueAt s.bounds.early.base v ∧ 0 ≤ valueAt s.bounds.early.value v ∧
    valueAt s.bounds.early.base v + valueAt F.durations v ≤ 1073741824 ∧
    valueAt s.bounds.early.value v + valueAt F.durations v ≤ 1073741824 := by
  have within := basis.base_mem h.base_value .early v
  dsimp only [Frame.floor, Frame.heights, Frame.height, Frame.limit, Frame.ceiling,
    Bounds.table] at within
  have bounds := h.consistent.early_mem v
  have release := F.release_nonneg v
  have deadline := modest v
  have duration := F.duration_nonneg v
  omega

omit [RandomSource ρ] in
/-- Two jobs that may follow each other are different and overlap. -/
lemma Resting.mayFollow (hs : source < F.size) (ht : target < F.size) :
    (s.mayFollow source target).Answers fun follows => follows = true → source ≠ target ∧
      valueAt s.bounds.early.value target <
        valueAt s.bounds.early.value source + valueAt F.durations source := by
  have consistent := h.consistent
  have early : fetch s.bounds.early.base source = .ok (valueAt s.bounds.early.base source) :=
    basis.fetch_base h.base_value .early hs
  have late : fetch s.bounds.late.base target = .ok (valueAt s.bounds.late.base target) :=
    basis.fetch_base h.base_value .late ht
  have short := h.early_short basis modest source
  have short' := h.early_short basis modest target
  unfold Solver.mayFollow
  split
  · exact .pure nofun
  · rename_i ne
    rw [consistent.overlap hs ht, ok_bind]
    split
    · exact .pure nofun
    · rename_i overlap
      simp only [Bool.not_eq_true', decide_eq_false_iff_not, not_not] at overlap
      rw [early, ok_bind, late, ok_bind, consistent.duration hs, ok_bind,
        addTime_of_mem (by unfold leastTime; omega) (by unfold greatestTime; omega), ok_bind,
        consistent.duration ht, ok_bind,
        addTime_of_mem (by unfold leastTime; omega) (by unfold greatestTime; omega), ok_bind]
      exact .pure fun _ => ⟨ne, overlap.1⟩

omit [RandomSource ρ] in
omit modest in
/-- Two plans that together cover the overlap of two jobs make room for them. -/
lemma Resting.makesRoom {safe safe' : Prop} {top top' : Nat → Int} {amount : Int}
    {deletion : DeletionSearch} {back forth : DeletionPlan}
    (cheapest : DeletionSearch.Cheapest safe F s.network s.bounds top source amount s.deletion back)
    (fewest : DeletionSearch.Fewest safe' F s.network s.bounds top' target
      (max (valueAt s.bounds.early.value source + valueAt F.durations source -
        valueAt s.bounds.early.value target - back.achieved) 0) deletion (some forth)) :
    MakesRoom F s.network (back.arcs ++ forth.arcs) source target := by
  intro net' values values' deleted sound sound'
  have above : ∀ side, DeletionSearch.BaseAbove F s.bounds side := fun side v =>
    (basis.base_mem h.base_value side v).1
  have room := h.consistent.room target
  have gained := cheapest.achieved_le (h.consistent.settled .early) (h.idle .early) (above .early)
    deleted (fun ref member => List.mem_append_left _ member) sound
  have gained' := fewest.amount_le (h.consistent.settled .late) (h.idle .late) (above .late)
    deleted (fun ref member => List.mem_append_right _ member) sound'
  omega

omit [RandomSource ρ] in
/-- The plans of both searches together make room for two jobs that overlap. -/
lemma Resting.planRoom (hs : source < F.size) (ht : target < F.size)
    (overlap : valueAt s.bounds.early.value target <
      valueAt s.bounds.early.value source + valueAt F.durations source) :
    (s.planRoom source target).AnswersIf (s.network.size ≤ 9223372036854775808) fun r =>
      Searched F.size s r.2 ∧ ∀ plans ∈ r.1,
        (∀ ref ∈ plans.1.arcs ++ plans.2.arcs, s.network.Deletable ref) ∧
          MakesRoom F s.network (plans.1.arcs ++ plans.2.arcs) source target := by
  have consistent := h.consistent
  have ground := fun side => consistent.ground modest h.idle basis h.base_value side
    (s.network.size ≤ 9223372036854775808)
  have early : fetch s.bounds.early.base source = .ok (valueAt s.bounds.early.base source) :=
    basis.fetch_base h.base_value .early hs
  have short := h.early_short basis modest source
  have short' := h.early_short basis modest target
  have least : leastTime = -9223372036854775808 := rfl
  have greatest : greatestTime = 9223372036854775807 := rfl
  unfold Solver.planRoom
  rw [consistent.earliestFinish hs, ok_bind, consistent.earliestStart ht, ok_bind,
    subTime_of_mem (by omega) (by omega), ok_bind, consistent.earliestStart hs, ok_bind, early, ok_bind,
    subTime_of_mem (by omega) (by omega), ok_bind]
  generalize amount : min _ (valueAt s.bounds.early.value source -
    valueAt s.bounds.early.base source) = x
  have le : x ≤ 1073741824 := by
    rw [← amount]
    exact (min_le_right _ _).trans (by omega)
  refine (DeletionSearch.backward_answers (ground .early) h.clean h.deletion hs
    (h.affordable le)).bind ?_
  rintro ⟨back, deletion, network⟩ ⟨cheapest, left⟩
  obtain rfl : network = s.network := left.network
  dsimp only at cheapest left ⊢
  have achieved : 0 ≤ back.achieved := cheapest.sane.nonneg
  have achieved_le : back.achieved ≤ greatestTime := cheapest.sane.le
  rw [subTime_of_mem (by omega) (by omega), ok_bind]
  refine (DeletionSearch.forward_answers (ground .late) h.clean left.sized ht).bind ?_
  rintro ⟨forth, deletion', network⟩ ⟨fewest, left'⟩
  obtain rfl : network = s.network := left'.network
  refine .pure ⟨⟨⟨s.log, rfl⟩, left'.sized, left'.penalty.trans left.penalty⟩,
    fun plans found => ?_⟩
  obtain ⟨plan, present, rfl⟩ := Option.map_eq_some_iff.1 found
  dsimp only at fewest present ⊢
  rw [present] at fewest
  refine ⟨fun ref member => ?_, h.makesRoom basis cheapest fewest⟩
  rcases List.mem_append.1 member with inBack | inForth
  · exact cheapest.sane.deletable ref inBack
  · exact fewest.sane.deletable ref inForth

end

/-- Room was made for a pair of jobs, and the arc between them has become the only candidate. -/
structure Paired (F : Frame) (s : Solver ρ α) (source target : Nat) (s' : Solver ρ α) : Prop where
  source_lt : source < F.size
  target_lt : target < F.size
  apart : source ≠ target
  cut : ∃ s₁ refs s₂, Searched F.size s s₁ ∧ (∀ ref ∈ refs, s.network.Deletable ref) ∧
    MakesRoom F s.network refs source target ∧ s₁.deleteArcs refs = .ok s₂ ∧
      s' = { s₂ with pool := s.pool.clear.push ⟨source, target, 1⟩ }

omit [RandomSource ρ] in
/-- The arcs of both plans are deleted, and the arc between the two jobs becomes the only candidate. -/
lemma Resting.commit (basis : Basis p F base) (h : s.Resting p F) (searched : Searched F.size s s₁)
    {refs : List ArcRef} (deletable : ∀ ref ∈ refs, s.network.Deletable ref) (event : LogEvent α) :
    (do
      let s := s₁.note event
      let s ← s.deleteArcs refs
      return (true, { s with pool := s.pool.clear.push ⟨source, target, 1⟩ }) :
        Checked (Bool × Solver ρ α)).Answers fun r => r.1 = true ∧
          ∃ s₁ s₂, Searched F.size s s₁ ∧ s₁.deleteArcs refs = .ok s₂ ∧
            r.2 = { s₂ with pool := s.pool.clear.push ⟨source, target, 1⟩ } := by
  have noted := searched.note event
  have h₂ := h.after noted
  obtain ⟨σ, placed⟩ := h₂.placed
  refine ((deleteArcs_answers basis h₂.consistent h₂.fits h₂.idle placed fun ref member =>
    noted.network ▸ deletable ref member).and_ensures .same).bind ?_
  rintro s₂ ⟨severed, answer⟩
  refine .pure ⟨rfl, _, s₂, noted, answer, ?_⟩
  have pool : s₂.pool = s.pool := by
    obtain ⟨_, _, _, _, same⟩ := severed.rest
    rw [same]
    exact noted.pool
  rw [pool]

omit [RandomSource ρ] in
/-- A pair of jobs is tried: room is made for it, or nothing is deleted. -/
lemma Resting.tryPair (basis : Basis p F base) (modest : F.Modest) (h : s.Resting p F)
    (hs : source < F.size) (ht : target < F.size) :
    (s.tryPair source target).AnswersIf (s.network.size ≤ 9223372036854775808) fun r =>
      if r.1 then Paired F s source target r.2 else Searched F.size s r.2 := by
  unfold Solver.tryPair
  refine (h.mayFollow basis modest hs ht).answersIf.bind fun follows holds => ?_
  split
  · exact .pure h.searched
  · rename_i isTrue
    simp only [Bool.not_eq_true', Bool.not_eq_false] at isTrue
    obtain ⟨ne, overlap⟩ := holds isTrue
    refine (h.planRoom basis modest hs ht overlap).bind ?_
    rintro ⟨plans, s₁⟩ ⟨searched, room⟩
    dsimp only at searched room ⊢
    cases plans with
    | none => exact .pure searched
    | some plans =>
      obtain ⟨back, forth⟩ := plans
      obtain ⟨deletable, makesRoom⟩ := room (back, forth) rfl
      dsimp only
      rw [(h.after searched).consistent.fitsAfter modest hs ht, ok_bind]
      split
      · exact .pure searched
      · refine (h.commit basis searched deletable _).answersIf.imp ?_
        rintro ⟨_, s'⟩ ⟨rfl, s₁, s₂, searched, answer, same⟩
        exact ⟨hs, ht, ne, s₁, _, s₂, searched, deletable, makesRoom, answer, same⟩

omit [RandomSource ρ] in
/-- A pair is found as soon as both searches succeed and there is something to delete. -/
lemma Resting.tryPair_of_plans (basis : Basis p F base) (modest : F.Modest) (h : s.Resting p F)
    (hs : source < F.size) (ht : target < F.size) (follows : s.mayFollow source target = .ok true)
    {back forth : DeletionPlan} (planned : s.planRoom source target = .ok (some (back, forth), s₁))
    (not_nothing : back.arcs ++ forth.arcs ≠ []) :
    (s.tryPair source target).Answers fun r => r.1 = true ∧ r.2.pool.isEmpty = false := by
  obtain ⟨-, overlap⟩ := (h.mayFollow basis modest hs ht).of_eq_ok follows rfl
  obtain ⟨searched, room⟩ := (h.planRoom basis modest hs ht overlap).ensures _ planned
  obtain ⟨deletable, -⟩ := room (back, forth) rfl
  have some_arcs : (back.arcs ++ forth.arcs).isEmpty = false :=
    Bool.eq_false_iff.2 (mt List.isEmpty_iff.1 not_nothing)
  unfold Solver.tryPair
  rw [follows, ok_bind]
  dsimp only
  rw [if_neg (by decide), planned, ok_bind]
  dsimp only
  rw [(h.after searched).consistent.fitsAfter modest hs ht, ok_bind, some_arcs, Bool.false_and,
    if_neg Bool.false_ne_true]
  refine (h.commit basis searched deletable _).imp ?_
  rintro ⟨_, s'⟩ ⟨rfl, _, s₂, -, -, rfl⟩
  exact ⟨rfl, rfl⟩

omit [RandomSource ρ] in
/-- Searches before room was made for a pair. -/
lemma Searched.paired (h : Searched F.size s s₁) (paired : Paired F s₁ source target s') :
    Paired F s source target s' := by
  obtain ⟨hs, ht, ne, s₂, refs, s₃, searched, deletable, room, answer, rest⟩ := paired
  rw [h.network] at deletable room
  rw [h.pool] at rest
  exact ⟨hs, ht, ne, s₂, refs, s₃, h.trans searched, deletable, room, answer, rest⟩

/-- What comes of the attempt to make room for a pair: no pair was found and nothing was deleted, or the arc
between the two jobs of a pair is the only candidate. -/
inductive Attempted (F : Frame) (s : Solver ρ α) : Solver ρ α → Prop
  | failed {s₁ : Solver ρ α} : Searched F.size s s₁ →
      Attempted F s { s₁ with pool := s₁.pool.clear }
  | paired {source target : Nat} {s' : Solver ρ α} : Paired F s source target s' →
      Attempted F s s'

omit [RandomSource ρ] in
/-- Pairs of jobs are tried one after the other. -/
lemma Resting.tryPairs (basis : Basis p F base) (modest : F.Modest) (h : s.Resting p F)
    {finishers starters : Array Nat} (same_size : finishers.size = starters.size)
    (finishers_lt : ∀ v ∈ finishers, v < F.size) (starters_lt : ∀ v ∈ starters, v < F.size)
    {count : Nat} : ∀ {trial : Nat} {s₁ : Solver ρ α}, Searched F.size s s₁ →
      (tryPairs finishers starters trial count s₁).AnswersIf
        (s.network.size ≤ 9223372036854775808) (Attempted F s) := by
  induction count with
  | zero => exact fun searched => .ok (.failed searched)
  | succ count ih =>
    intro trial s₁ searched
    unfold Solver.tryPairs
    dsimp only
    split
    · exact .pure (.failed searched)
    · rename_i more
      have ht : trial / 2 + trial % 2 < starters.size := Nat.not_le.1 more
      have hs : trial / 2 < finishers.size := by omega
      rw [fetch_of_lt hs, ok_bind, fetch_of_lt ht, ok_bind]
      have tried := (h.after searched).tryPair basis modest (finishers_lt _ (Array.getElem_mem hs))
        (starters_lt _ (Array.getElem_mem ht))
      rw [searched.network] at tried
      refine tried.bind ?_
      rintro ⟨found, s₂⟩ outcome
      cases found with
      | true => exact .pure (.paired (searched.paired outcome))
      | false => exact ih (searched.trans outcome)

omit [RandomSource ρ] in
/-- Room is made for two jobs of the active range. -/
lemma Resting.makeCandidate (basis : Basis p F base) (modest : F.Modest) (h : s.Resting p F) :
    s.makeCandidate.AnswersIf (s.network.size ≤ 9223372036854775808) fun s' =>
      ∃ pool, s.pool.collect s.bounds s.active = .ok pool ∧ Attempted F { s with pool } s' := by
  have consistent := h.consistent
  unfold Solver.makeCandidate
  have gathered := (CandidatePool.collect_answersIf consistent.tabled s.pool s.active).answers
    (consistent.timed modest)
  refine (gathered.and_ensures .same).answersIf.bind fun pool ⟨⟨gathers, _⟩, collected⟩ => ?_
  have jobs_lt : ∀ v ∈ pool.jobs.toList, v < F.size := consistent.numJobs ▸ gathers.inside
  unfold byFinish byStartDown
  refine (sorted_answers (fun v member =>
    consistent.earliestFinish (jobs_lt v member)) _).answersIf.bind fun finishers perm => ?_
  refine (sorted_answers (fun v member =>
    consistent.earliestStart (jobs_lt v member)) _).answersIf.bind fun starters perm' => ?_
  have h' := h.withPool pool
  refine (h'.tryPairs basis modest ?_ (fun v member => ?_) (fun v member => ?_) h'.searched).imp
    fun s' attempted => ⟨pool, collected, attempted⟩
  · rw [List.size_toArray, List.size_toArray, perm.length_eq, perm'.length_eq]
  · exact jobs_lt v (perm.subset (List.mem_toArray.1 member))
  · exact jobs_lt v (perm'.subset (List.mem_toArray.1 member))

end Solver

end Leveling
