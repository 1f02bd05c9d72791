import Leveling.Proofs.Profile.Placements
import Leveling.Proofs.Bounds.Admission
import Leveling.Proofs.Search.Candidates
import Leveling.Proofs.Search.Growth
import Leveling.Search.State

/-!
# Intact states

In each state of a search the network keeps the precedences of the instance, the bounds are exact inside
the active range, and the profile has every job at its earliest start.  An operation on the bounds names
the jobs whose earliest starts it has changed, and the profile moves these.  While they are moved the
bounds and the profile disagree, so what a move relies on is stated for a profile that shows any
placement at all.

The veil of the bounds belongs to the active range.  The range may be changed only if nothing is
deferred, or together with a pass that takes up the deferred jobs that the new range touches.

All this holds however many jobs there are and however late their deadlines, because propagation never
leaves the range of times.
-/

namespace Leveling

open Checked Network

/-- The instance is accepted, its deadlines are times, and `base` is its network. -/
structure Basis {α : Type} (p : Problem α) (F : Frame) (base : Network) : Prop where
  built : p.Built
  timely : p.Timely
  base : p.Base F base

/-- What a search relies on in its instance, however large it is: it is accepted, its deadlines are times,
and no lag is shorter than the duration of its source. -/
structure Footing {α : Type} (p : Problem α) (F : Frame) (base : Network) : Prop extends
    Basis p F base where
  spacious : ∀ q ∈ p.precedences, p.durationOf q.source ≤ q.lag

section

variable {α : Type} {p : Problem α} {F : Frame} {base net : Network} {b : Bounds}
  {hidden : Side → Nat → Int → Prop} {u v w : Nat} {lag : Int}

/-- The duration of a job in the instance and in its frame. -/
lemma Basis.durationOf (basis : Basis p F base) (v : Nat) :
    p.durationOf v = valueAt F.durations v := by
  unfold Problem.durationOf
  rw [basis.base.durations]

/-- There are as many jobs in the instance as in its frame. -/
lemma Basis.size (basis : Basis p F base) : F.size = p.jobs.size := by
  unfold Frame.size
  rw [basis.base.durations, Array.size_map]

/-- No deadline is later than the horizon. -/
lemma Basis.deadline_le (basis : Basis p F base) (v : Nat) :
    valueAt F.deadlines v ≤ p.horizon := by
  have deadlines : F.deadlines = p.jobs.map Job.deadline := basis.base.limit .late
  rw [deadlines]
  rcases lt_or_ge v p.jobs.size with hv | hv
  · rw [Problem.valueAt_jobs _ hv]
    obtain ⟨-, none⟩ | ⟨-, latest⟩ := p.horizon_cases
    · exact absurd (Array.getElem_mem_toList hv) (none ▸ List.not_mem_nil)
    · exact latest _ (Array.getElem_mem_toList hv)
  · rw [Problem.valueAt_jobs_of_le _ hv]
    exact basis.built.horizon_nonneg

/-- No arc of a search has a lag shorter than the duration of its source. -/
lemma Footing.lag_le (footing : Footing p F base) (grown : Grown p net) (arc : net.HasArc u w lag) :
    valueAt F.durations u ≤ lag :=
  footing.durationOf u ▸ grown.lag_le footing.spacious arc

/-! ## Placements -/

/-- Each job at its earliest start. -/
def earliest (F : Frame) (b : Bounds) (v : Nat) : Option Int :=
  if v < F.size then some (valueAt b.early.value v) else none

/-- The placement of a job. -/
lemma earliest_of_lt (hv : v < F.size) : earliest F b v = some (valueAt b.early.value v) :=
  if_pos hv

/-- The bounds list the earliest starts. -/
lemma Consistent.earliest_eq (h : Consistent F hidden net b) :
    earliest F b = fun v => b.early.value[v]? := by
  have size : b.early.value.size = F.size := (h.settled .early).sound.size
  funext v
  unfold earliest valueAt
  rw [Array.getD_eq_getD_getElem?]
  by_cases hv : v < F.size
  · rw [if_pos hv, Array.getElem?_eq_getElem (size ▸ hv)]
    rfl
  · rw [if_neg hv, Array.getElem?_eq_none (by omega)]

/-- A job at its earliest start runs before the horizon. -/
lemma Consistent.inside (h : Consistent F hidden net b) (basis : Basis p F base) (v : Nat) :
    p.Inside v (valueAt b.early.value v) := by
  have release := F.release_nonneg v
  have deadline := basis.deadline_le v
  have room := h.early_mem v
  have duration := basis.durationOf v
  constructor <;> omega

/-- If all jobs whose earliest starts have changed are moved, all jobs are at their earliest starts. -/
lemma earliest_of_moved {b' : Bounds} {jobs : List Nat}
    (moved : ∀ v < F.size, valueAt b'.early.value v ≠ valueAt b.early.value v → v ∈ jobs) :
    (fun v => if v ∈ jobs then earliest F b' v else earliest F b v) = earliest F b' := by
  funext v
  split
  · rfl
  · rename_i fresh
    unfold earliest
    split
    · rename_i hv
      by_contra differs
      exact fresh (moved v hv fun same => differs (congrArg some same.symm))
    · rfl

variable [Scalar α] {P : Profile α} {σ : Nat → Option Int}

/-- The listed jobs are moved to their earliest starts, and the others stay where they are. -/
lemma moves_answer (basis : Basis p F base) (h : Consistent F hidden net b) {jobs : List Nat}
    (holds : P.Holds p σ) (jobs_lt : ∀ v ∈ jobs, v < F.size) :
    (jobs.foldlM (fun (P : Profile α) v => do P.reposition v (← b.earliestStart v)) P).Answers
      (Profile.Holds p fun v => if v ∈ jobs then earliest F b v else σ v) := by
  let Inv (rest : List Nat) (P : Profile α) : Prop :=
    ∃ σ', P.Holds p σ' ∧ rest ⊆ jobs ∧
      ∀ v, v ∉ rest → σ' v = if v ∈ jobs then earliest F b v else σ v
  have start : Inv jobs P := ⟨σ, holds, List.Subset.refl jobs, fun v fresh => (if_neg fresh).symm⟩
  refine (Answers.foldlM_rest Inv ?_ start).imp ?_
  · rintro P v rest ⟨σ', holds, listed, others⟩
    have member := listed List.mem_cons_self
    have hv := jobs_lt v member
    rw [h.earliestStart hv, ok_bind]
    refine (holds.reposition_answers basis.built basis.timely (basis.size ▸ hv)
      (h.inside basis v)).imp fun P' holds' => ?_
    refine ⟨_, holds', fun w among => listed (List.mem_cons_of_mem _ among), fun w fresh => ?_⟩
    by_cases same : w = v
    · rw [same, Function.update_self, if_pos member, earliest_of_lt hv]
    · rw [Function.update_of_ne same]
      refine others w fun among => ?_
      exact (List.mem_cons.1 among).elim same fresh
  · rintro P ⟨σ', holds, -, others⟩
    rwa [funext fun v => others v List.not_mem_nil] at holds

/-- A profile in which jobs are moved keeps its kind. -/
lemma moves_kind (b : Bounds) (jobs : List Nat) (P : Profile α) :
    (jobs.foldlM (fun (P : Profile α) v => do P.reposition v (← b.earliestStart v)) P).Ensures
      fun P' => P'.kindName = P.kindName := by
  refine Ensures.foldlM (fun P' : Profile α => P'.kindName = P.kindName) (fun P' same v _ => ?_) rfl
  refine Ensures.any.bind fun start _ P'' answer => ?_
  have moved : P'.perform (.reposition v start) = .ok P'' := answer
  exact (Profile.kindName_perform moved).trans same

/-- The listed jobs are placed at their earliest starts, if they are all jobs and none is placed. -/
lemma placements_answer (basis : Basis p F base) (h : Consistent F hidden net b)
    {jobs : List Nat} (holds : P.Holds p fun _ => none) (distinct : jobs.Nodup)
    (all_jobs : ∀ v, v ∈ jobs ↔ v < F.size) :
    (Solver.placeAll b jobs P).Answers (Profile.Holds p (earliest F b)) := by
  let Inv (rest : List Nat) (P : Profile α) : Prop :=
    ∃ σ, P.Holds p σ ∧ rest.Nodup ∧ (∀ v ∈ rest, v < F.size ∧ σ v = none) ∧
      ∀ v, v ∉ rest → σ v = earliest F b v
  have start : Inv jobs P := by
    refine ⟨_, holds, distinct, fun v member => ⟨(all_jobs v).1 member, rfl⟩, fun v fresh => ?_⟩
    exact (if_neg fun hv => fresh ((all_jobs v).2 hv)).symm
  unfold Solver.placeAll
  refine (Answers.foldlM_rest Inv ?_ start).imp ?_
  · rintro P v rest ⟨σ, holds, distinct, free, others⟩
    obtain ⟨fresh, distinct⟩ := List.nodup_cons.1 distinct
    obtain ⟨hv, unplaced⟩ := free v List.mem_cons_self
    rw [h.earliestStart hv, ok_bind]
    refine (holds.insert_answers basis.built basis.timely (basis.size ▸ hv) unplaced
      (h.inside basis v)).imp fun P' holds' => ?_
    refine ⟨_, holds', distinct, fun w member => ?_, fun w outside => ?_⟩
    · have ne : w ≠ v := fun same => fresh (same ▸ member)
      rw [Function.update_of_ne ne]
      exact free w (List.mem_cons_of_mem _ member)
    · by_cases same : w = v
      · rw [same, Function.update_self, earliest_of_lt hv]
      · rw [Function.update_of_ne same]
        refine others w fun member => ?_
        exact (List.mem_cons.1 member).elim same outside
  · rintro P ⟨σ, holds, -, -, others⟩
    rwa [funext fun v => others v List.not_mem_nil] at holds

end

namespace Solver

variable {ρ α : Type} [RandomSource ρ] [Scalar α] {p : Problem α} {F : Frame} {base : Network}
  {kind : String} {hidden : Side → Nat → Int → Prop} {s s' : Solver ρ α} {source target : Nat}

/-! ## Intact states -/

/-- A state in which nothing is wrong with the network, the bounds, the profile and the candidates, with
any veil of the bounds and a profile of the given kind. -/
structure Intact (p : Problem α) (F : Frame) (base : Network) (kind : String)
    (hidden : Side → Nat → Int → Prop) (s : Solver ρ α) : Prop where
  problem : s.problem = p
  base : s.base = base
  grown : Grown p s.network
  consistent : Consistent F hidden s.network s.bounds
  base_value : ∀ side, (s.bounds.table side).base = ((Bounds.ofProblem p).table side).base
  holds : s.profile.Holds p (earliest F s.bounds)
  kind : s.profile.kindName = kind
  pool : s.pool.Orderly F.size
  deletion : s.deletion.Sized F.size

/-- An intact state whose bounds are exact inside the active range. -/
def Steady (p : Problem α) (F : Frame) (base : Network) (kind : String) (s : Solver ρ α) : Prop :=
  Intact p F base kind (Session.veil F s.active) s

/-- Nothing is deferred. -/
def Idle (s : Solver ρ α) : Prop := ∀ side, (s.bounds.table side).deferred = []

/-- The parts of a state that the search is about. -/
def heart (s : Solver ρ α) : Problem α × Network × Network × Bounds × Profile α ×
    CandidatePool α × DeletionSearch :=
  (s.problem, s.base, s.network, s.bounds, s.profile, s.pool, s.deletion)

omit [RandomSource ρ] in
/-- The other parts of a state may be changed at will. -/
lemma Intact.congr (h : Intact p F base kind hidden s) (same : s'.heart = s.heart) :
    Intact p F base kind hidden s' := by
  simp only [heart, Prod.mk.injEq] at same
  obtain ⟨problem, base, network, bounds, profile, pool, deletion⟩ := same
  constructor
  · rw [problem, h.problem]
  · rw [base, h.base]
  · rw [network]
    exact h.grown
  · rw [network, bounds]
    exact h.consistent
  · rw [bounds]
    exact h.base_value
  · rw [profile, bounds]
    exact h.holds
  · rw [profile]
    exact h.kind
  · rw [pool]
    exact h.pool
  · rw [deletion]
    exact h.deletion

omit [RandomSource ρ] in
/-- The other parts of a state may be changed, but not the active range. -/
lemma Steady.congr (h : s.Steady p F base kind) (same : s'.heart = s.heart)
    (range : s'.active = s.active) : s'.Steady p F base kind := by
  unfold Steady
  rw [range]
  exact Intact.congr h same

section

omit [RandomSource ρ] [Scalar α]

variable (s) (event : LogEvent α)

/-- Logging an event changes nothing that the search is about. -/
@[simp] lemma heart_note : (s.note event).heart = s.heart := by
  unfold note
  split <;> rfl

/-- Logging an event leaves the bounds. -/
@[simp] lemma bounds_note : (s.note event).bounds = s.bounds := by
  unfold note
  split <;> rfl

/-- Logging an event leaves the network. -/
@[simp] lemma network_note : (s.note event).network = s.network := by
  unfold note
  split <;> rfl

/-- Logging an event leaves the profile. -/
@[simp] lemma profile_note : (s.note event).profile = s.profile := by
  unfold note
  split <;> rfl

/-- Logging an event leaves the pool. -/
@[simp] lemma pool_note : (s.note event).pool = s.pool := by
  unfold note
  split <;> rfl

/-- Logging an event leaves the scorer. -/
@[simp] lemma scorer_note : (s.note event).scorer = s.scorer := by
  unfold note
  split <;> rfl

/-- Logging an event leaves the deletion search. -/
@[simp] lemma deletion_note : (s.note event).deletion = s.deletion := by
  unfold note
  split <;> rfl

/-- Logging an event leaves the best schedule. -/
@[simp] lemma best_note : (s.note event).best = s.best := by
  unfold note
  split <;> rfl

/-- Logging an event leaves the active range. -/
@[simp] lemma active_note : (s.note event).active = s.active := by
  unfold note
  split <;> rfl

end

omit [RandomSource ρ] in
/-- Logging an event keeps a state intact. -/
lemma Steady.note (h : s.Steady p F base kind) (event : LogEvent α) :
    (s.note event).Steady p F base kind :=
  h.congr (heart_note s event) (active_note s event)

omit [RandomSource ρ] in
/-- If nothing is deferred, no veil is needed. -/
lemma Intact.unveil (h : Intact p F base kind hidden s) (idle : s.Idle)
    (hidden' : Side → Nat → Int → Prop) : Intact p F base kind hidden' s where
  problem := h.problem
  base := h.base
  grown := h.grown
  consistent := h.consistent.unveil idle hidden'
  base_value := h.base_value
  holds := h.holds
  kind := h.kind
  pool := h.pool
  deletion := h.deletion

omit [RandomSource ρ] in
/-- If nothing is deferred, any range may be the active one. -/
lemma Steady.turn (h : s.Steady p F base kind) (idle : s.Idle) (range : Span) :
    Steady p F base kind { s with active := range } :=
  Intact.congr (h.unveil idle (Session.veil F range)) rfl

/-! ## Bounds and profile together -/

/-- The parts of a state to which propagation does nothing. -/
def aside (s : Solver ρ α) : Scorer ρ α × CandidatePool α × DeletionSearch × Span × Schedule α :=
  (s.scorer, s.pool, s.deletion, s.active, s.best)

omit [RandomSource ρ] in
/-- The listed jobs are moved in the profile of a state, and nothing else changes. -/
lemma moveJobs_answers (basis : Basis p F base) {net : Network} {σ : Nat → Option Int}
    {jobs : List Nat} (h : Consistent F hidden net s.bounds)
    (holds : s.profile.Holds p σ) (jobs_lt : ∀ v ∈ jobs, v < F.size) :
    (s.moveJobs jobs).Answers fun s' => ∃ profile, s' = { s with profile } ∧
      profile.Holds p (fun v => if v ∈ jobs then earliest F s.bounds v else σ v) ∧
        profile.kindName = s.profile.kindName := by
  unfold moveJobs
  refine ((moves_answer basis h holds jobs_lt).and_ensures (moves_kind _ _ _)).bind
    fun profile moved => ?_
  exact .pure ⟨profile, rfl, moved⟩

omit [RandomSource ρ] in
/-- A pass that takes up deferred jobs on both sides keeps a state intact, whatever its veil was. -/
lemma Intact.propagate (footing : Footing p F base) (h : Intact p F base kind hidden s)
    {drain : Drain} (some_jobs : drain ≠ .nothing) :
    (s.propagate drain).Answers fun s' => s'.Steady p F base kind ∧
      (∃ bounds profile, s' = { s with bounds, profile }) ∧ (drain = .everything → s'.Idle) := by
  have veils : ∀ side, Veil F s.network side s.active (Session.veil F s.active side) := fun side =>
    Session.veil_of_lags s.active side h.consistent.roomy fun arc => footing.lag_le h.grown arc
  unfold Solver.propagate
  refine (h.consistent.pass (veils .late) fun nothing => absurd nothing some_jobs).bind ?_
  rintro ⟨bounds, changed⟩ ⟨late, rfl, tightened, consistent⟩
  refine (consistent.pass (veils .early) fun nothing => absurd nothing some_jobs).bind ?_
  rintro ⟨bounds', changed'⟩ ⟨early, rfl, tightened', consistent'⟩
  have veil : Function.update (Function.update hidden .late (Session.veil F s.active .late)) .early
      (Session.veil F s.active .early) = Session.veil F s.active := by
    funext side
    cases side <;> rfl
  dsimp only at consistent' ⊢
  rw [veil] at consistent'
  refine (moveJobs_answers (s := { s with bounds := _ }) footing.toBasis consistent' h.holds
    tightened'.changed_lt).imp ?_
  rintro s' ⟨profile, rfl, holds, same⟩
  rw [earliest_of_moved fun v _ => tightened'.moved v] at holds
  refine ⟨⟨h.problem, h.base, h.grown, consistent', fun side => ?_, holds, same.trans h.kind, h.pool,
    h.deletion⟩, ⟨_, profile, rfl⟩, fun everything side => ?_⟩
  · rw [← h.base_value side]
    cases side with
    | early => exact tightened'.base
    | late => exact tightened.base
  · cases side with
    | early => exact tightened'.drained everything
    | late => exact tightened.drained everything

omit [RandomSource ρ] in
/-- An admitted arc is inserted. -/
lemma Steady.insertArc (footing : Footing p F base) (h : s.Steady p F base kind)
    (admitted : Admitted F s.bounds s.active source target) (complete : Bool) :
    (s.insertArc source target complete).Answers fun s' =>
      s'.Steady p F base kind ∧ s'.aside = s.aside := by
  unfold Solver.insertArc
  dsimp only
  rw [h.consistent.earliestStart admitted.source_lt, ok_bind,
    h.consistent.earliestStart admitted.target_lt, ok_bind,
    h.consistent.latestFinish admitted.target_lt, ok_bind]
  generalize noted : Solver.note _ _ = s₁
  have h₁ : s₁.Steady p F base kind := by
    rw [← noted]
    exact h.congr (heart_note _ _) (active_note _ _)
  have same₁ : s₁.aside = s.aside := by
    rw [← noted]
    simp [aside]
  replace admitted : Admitted F s₁.bounds s₁.active source target := by
    rw [← noted, bounds_note, active_note]
    exact admitted
  clear noted h
  have consistent := h₁.consistent
  have hs := admitted.source_lt
  have ht := admitted.target_lt
  have lags : ∀ {u w lag}, s₁.network.HasArc u w lag → valueAt F.durations u ≤ lag :=
    fun arc => footing.lag_le h₁.grown arc
  rw [consistent.duration hs, ok_bind]
  refine (consistent.roomy.linked.insert (consistent.roomy.size ▸ hs) (consistent.roomy.size ▸ ht)
    (valueAt F.durations source) false).bind fun net inserted => ?_
  have roomy := admitted.roomy consistent lags inserted
  have grown : Grown p net := by
    refine h₁.grown.insert (admitted.unordered consistent lags).not_joined ?_
    rw [footing.durationOf]
    exact inserted
  have veils : ∀ side, Veil F net side s₁.active (Session.veil F s₁.active side) := fun side =>
    Session.veil_of_lags s₁.active side roomy fun arc => footing.lag_le grown arc
  refine (consistent.ahead roomy inserted hs (veils .early) fun _ _ _ beyond => beyond).bind ?_
  rintro ⟨bounds, changed⟩ ⟨early, rfl, tightened⟩
  refine (consistent.back (Session.veil F s₁.active) roomy inserted ht tightened
    (consistent.fits_duration source target) (veils .late) fun _ _ _ beyond => beyond).bind ?_
  rintro ⟨bounds', changed'⟩ ⟨late, rfl, tightened', consistent'⟩
  refine (moveJobs_answers (s := { s₁ with network := net, bounds := _ }) footing.toBasis consistent'
    h₁.holds tightened.changed_lt).imp ?_
  rintro s' ⟨profile, rfl, holds, same⟩
  rw [earliest_of_moved fun v _ => tightened.moved v] at holds
  refine ⟨⟨h₁.problem, h₁.base, grown, consistent', fun side => ?_, holds, same.trans h₁.kind, h₁.pool,
    h₁.deletion⟩, same₁⟩
  rw [← h₁.base_value side]
  cases side with
  | early => exact tightened.base
  | late => exact tightened'.base

/-- Arcs were deleted, the bounds were relaxed, and the jobs whose earliest starts have changed were moved in a
profile that held the placement `σ`. -/
structure Severed (p : Problem α) (F : Frame) (s : Solver ρ α) (refs : List ArcRef)
    (σ : Nat → Option Int) (s' : Solver ρ α) : Prop where
  delete : s.network.delete refs = .ok s'.network
  deleted : s.network.Deleted refs s'.network
  consistent : ∀ hidden, Consistent F hidden s'.network s'.bounds
  idle : s'.Idle
  base : ∀ side, (s'.bounds.table side).base = (s.bounds.table side).base
  kind : s'.profile.kindName = s.profile.kindName
  moved : ∃ jobs : List Nat,
    (∀ v, valueAt s'.bounds.early.value v ≠ valueAt s.bounds.early.value v → v ∈ jobs) ∧
      s'.profile.Holds p fun v => if v ∈ jobs then earliest F s'.bounds v else σ v
  rest : ∃ network bounds counters profile, s' = { s with network, bounds, counters, profile }

omit [RandomSource ρ] in
/-- Arcs that are not permanent are deleted while nothing is deferred, wherever the jobs are. -/
lemma deleteArcs_answers (basis : Basis p F base)
    (h : Consistent F hidden s.network s.bounds) (fits : Fits F s.network F.deadlines) (idle : s.Idle)
    {σ : Nat → Option Int} (holds : s.profile.Holds p σ) {refs : List ArcRef}
    (deletable : ∀ ref ∈ refs, s.network.Deletable ref) :
    (s.deleteArcs refs).Answers (Severed p F s refs σ) := by
  unfold Solver.deleteArcs
  dsimp only
  refine (nearEnds_answers .early deletable).bind fun targets ends => ?_
  refine ((h.roomy.linked.delete deletable).and_ensures .same).bind fun net ⟨deleted, delete⟩ => ?_
  refine (h.relaxAhead fits idle deletable deleted ends).bind ?_
  rintro ⟨bounds, changed⟩ ⟨early, rfl, relaxed⟩
  refine (h.relaxBack fits idle deletable deleted relaxed).bind ?_
  rintro ⟨bounds', changed'⟩ ⟨late, rfl, relaxed', consistent⟩
  refine (moveJobs_answers (s := { s with network := net, bounds := _, counters := _ }) basis
    (consistent hidden) holds relaxed.changed_lt).imp ?_
  rintro s' ⟨profile, rfl, holds', kind⟩
  refine ⟨delete, deleted, consistent, fun side => ?_, fun side => ?_, kind,
    ⟨changed, relaxed.moved, holds'⟩, ⟨_, _, _, _, rfl⟩⟩
  · cases side with
    | early => exact relaxed.nothing
    | late => exact relaxed'.nothing
  · cases side with
    | early => exact relaxed.base
    | late => exact relaxed'.base

omit [RandomSource ρ] in
/-- Arcs that are not permanent are deleted while nothing is deferred. -/
lemma Steady.deleteArcs (footing : Footing p F base) (h : s.Steady p F base kind) (idle : s.Idle)
    {refs : List ArcRef} (deletable : ∀ ref ∈ refs, s.network.Deletable ref) :
    (s.deleteArcs refs).Answers fun s' =>
      s'.Steady p F base kind ∧ s'.Idle ∧ s'.aside = s.aside := by
  have fits : Fits F s.network F.deadlines := fits_of_lags fun arc => footing.lag_le h.grown arc
  refine (deleteArcs_answers footing.toBasis h.consistent fits idle h.holds deletable).imp ?_
  rintro s' ⟨-, deleted, consistent, idle', base_value, same, ⟨jobs, moved, holds⟩,
    ⟨net, bounds, counters, profile, rfl⟩⟩
  rw [earliest_of_moved fun v _ => moved v] at holds
  exact ⟨⟨h.problem, h.base, h.grown.delete deletable deleted, consistent _,
    fun side => (base_value side).trans (h.base_value side), holds, same.trans h.kind, h.pool,
    h.deletion⟩, idle', rfl⟩

/-! ## The best schedule -/

/-- The present schedule was compared to the best one: it was better and has become the best one, or it
was not. -/
def Compared (s s' : Solver ρ α) : Prop :=
  (s'.profile.maximum < s.best.peak ∧
      s'.best = .ofStarts s'.bounds.early.value s'.profile.maximum) ∨
    (¬s'.profile.maximum < s.best.peak ∧ s'.best = s.best)

omit [RandomSource ρ] in
/-- The present schedule is compared to the best one, after a pass if something is deferred. -/
lemma Steady.updateBest (footing : Footing p F base) (h : s.Steady p F base kind) :
    s.updateBest.Answers fun s' => s'.Steady p F base kind ∧ s'.Idle ∧ Compared s s' ∧
      s'.scorer = s.scorer ∧ s'.pool = s.pool ∧ s'.deletion = s.deletion ∧ s'.active = s.active := by
  have rest : ∀ {s₁ : Solver ρ α}, s₁.Steady p F base kind → s₁.Idle → s₁.aside = s.aside → (
      if s₁.profile.maximum < s₁.best.peak then
        let s₁ := { s₁ with best := .ofStarts s₁.bounds.early.value s₁.profile.maximum,
                            counters.improvements := s₁.counters.improvements + 1 }
        return s₁.note (.improved s₁.profile.maximum s₁.counters.iterations)
      else return s₁ : Checked (Solver ρ α)).Answers fun s' => s'.Steady p F base kind ∧ s'.Idle ∧
        Compared s s' ∧ s'.scorer = s.scorer ∧ s'.pool = s.pool ∧ s'.deletion = s.deletion ∧
          s'.active = s.active := by
    intro s₁ h₁ idle same
    simp only [aside, Prod.mk.injEq] at same
    obtain ⟨scorer, pool, deletion, active, best⟩ := same
    split
    · rename_i better
      refine .pure ⟨Steady.note ?_ _, fun side => ?_, .inl ⟨?_, ?_⟩, ?_, ?_, ?_, ?_⟩
      · exact h₁.congr rfl rfl
      · rw [bounds_note]
        exact idle side
      · rw [profile_note, ← best]
        exact better
      · rw [best_note, bounds_note, profile_note]
      · rw [scorer_note, scorer]
      · rw [pool_note, pool]
      · rw [deletion_note, deletion]
      · rw [active_note, active]
    · rename_i notBetter
      exact .pure ⟨h₁, idle, .inr ⟨best ▸ notBetter, best⟩, scorer, pool, deletion, active⟩
  unfold Solver.updateBest
  split
  · refine (h.propagate footing (by decide)).bind ?_
    rintro s₁ ⟨steady, ⟨bounds, profile, rfl⟩, idle⟩
    exact rest steady (idle rfl) rfl
  · rename_i nothing
    exact rest h (fun side => Session.deferred_of_hasDeferred (Bool.eq_false_iff.2 nothing) side) rfl

/-! ## Back to the instance -/

omit [RandomSource ρ] in
/-- The base bounds are those of the instance. -/
lemma Intact.bounds_reset (footing : Footing p F base) (h : Intact p F base kind hidden s) :
    s.bounds.reset = Bounds.ofProblem p := by
  have durations : s.bounds.durations = p.jobs.map Job.duration :=
    h.consistent.of.durations.trans footing.base.durations
  have limit : ∀ side, (s.bounds.table side).limit = F.limit side := h.consistent.of.limit
  have releases : s.bounds.early.limit = p.jobs.map Job.release :=
    (limit .early).trans (footing.base.limit .early)
  have deadlines : s.bounds.late.limit = p.jobs.map Job.deadline :=
    (limit .late).trans (footing.base.limit .late)
  have early : s.bounds.early.base = p.earliestStart := h.base_value .early
  have late : s.bounds.late.base = p.latestFinish := h.base_value .late
  unfold Bounds.reset Bounds.ofProblem
  dsimp only
  rw [durations, releases, deadlines, early, late]

omit [RandomSource ρ] in
/-- The network goes back to that of the instance, as a further change. -/
lemma Intact.network_restore (footing : Footing p F base) (h : Intact p F base kind hidden s) :
    s.network.restore s.base = { base with generation := s.network.generation + 1 } := by
  have roomy := h.consistent.roomy
  rw [h.base]
  exact restore_of_linked roomy.linked footing.base.roomy.linked
    (roomy.size.trans footing.base.roomy.size.symm)

omit [RandomSource ρ] in
/-- All jobs are moved to the earliest starts of the instance. -/
lemma Intact.restart (footing : Footing p F base) (h : Intact p F base kind hidden s)
    (scorer : Scorer ρ α) (counters : Counters) : (moveJobs { s with
        scorer, counters, network := { base with generation := s.network.generation + 1 },
        bounds := Bounds.ofProblem p } (List.range (Bounds.ofProblem p).numJobs)).Answers fun s' =>
      (∃ profile, s' = { s with
        scorer, counters, network := { base with generation := s.network.generation + 1 },
        bounds := Bounds.ofProblem p, profile }) ∧
      ∀ hidden' active, Intact p F base kind hidden' { s' with active, pool := s'.pool.clear } := by
  have draft : Draft.Kept p F hidden ⟨s.network, s.bounds⟩ := ⟨h.consistent, h.base_value⟩
  have back : Draft.reset ⟨s.network, s.bounds⟩ base =
      ⟨{ base with generation := s.network.generation + 1 }, Bounds.ofProblem p⟩ := by
    unfold Draft.reset
    rw [← h.network_restore footing, ← h.bounds_reset footing, h.base]
  have kept := fun hidden' => back ▸ draft.reset footing.base hidden'
  have jobs : ∀ v, v ∈ List.range (Bounds.ofProblem p).numJobs ↔ v < F.size := fun v => by
    rw [List.mem_range, (kept hidden).consistent.numJobs]
  refine (moveJobs_answers (s := { s with
      scorer, counters, network := { base with generation := s.network.generation + 1 },
      bounds := Bounds.ofProblem p }) footing.toBasis (kept hidden).consistent h.holds
    fun v member => (jobs v).1 member).imp ?_
  rintro s' ⟨profile, rfl, holds, same⟩
  rw [earliest_of_moved fun v hv _ => (jobs v).2 hv] at holds
  refine ⟨⟨profile, rfl⟩, fun hidden' active => ?_⟩
  exact ⟨h.problem, h.base, (grown_base footing.built footing.base).generation _,
    (kept hidden').consistent, fun _ => rfl, holds, same.trans h.kind, h.pool.clear, h.deletion⟩

end Solver

end Leveling
