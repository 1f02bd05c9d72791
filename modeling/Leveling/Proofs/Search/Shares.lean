import Leveling.Proofs.Search.Elites

/-!
# The shares of an elite pool

A pool that is asked for a pair of jobs answers with the share of its members in which one job has finished when
the other one starts.  It remembers its answers in a table that is never cleared: an answer is stamped with the
generation of the pool, and as each change of the members begins a new generation, the answers that were
stamped before no longer count (`Stamped`).

The divisor of a share is the room of the pool.  That is the number of its members because a pool is not asked
before it has seen at least as many rounds as it has room for.  The shares are exact as long as the times at
which the jobs of the members finish are in the range of times, and there is an overflow if one of them is not.
-/

namespace Leveling

open Checked

variable {ρ α : Type} [RandomSource ρ] {n s t : Nat} {d : Array Int}

/-- After so few rounds the pool is not asked yet. -/
def EliteConfig.TooFew [Scalar α] (config : EliteConfig α) (rounds : Nat) : Prop :=
  Scalar.ofNat rounds < config.startFactor * Scalar.ofNat config.poolSize

/-- Enough rounds to ask the pool are at least as many as there is room for. -/
lemma EliteConfig.poolSize_le [ExactScalar α] {config : EliteConfig α} (factor : 1 ≤ config.startFactor)
    (enough : ¬config.TooFew n) : config.poolSize ≤ n := by
  have le : (config.poolSize : α) ≤ n :=
    calc (config.poolSize : α) ≤ config.startFactor * config.poolSize :=
          le_mul_of_one_le_left (Nat.cast_nonneg _) factor
      _ ≤ n := not_lt.1 enough
  exact Nat.cast_le.1 le

namespace EliteScorer

section

variable [Scalar α]

/-! ## Stamps -/

/-- The share of the members in which the job `s` has finished when the job `t` starts. -/
def share (e : EliteScorer ρ α) (s t : Nat) : α :=
  Scalar.ofNat (e.members.toList.countP fun m => m.Orders e.durations s t) / Scalar.ofNat e.capacity

/-- The pool has its settings and has seen the rounds, some of which are its members.  No answer was stamped for
a generation to come, and those with the present stamp are the present shares. -/
structure Stamped (d : Array Int) (config : EliteConfig α) (rounds : List (EliteMember α))
    (e : EliteScorer ρ α) : Prop where
  paired : e.Paired
  durations : e.durations = d
  capacity : e.capacity = config.poolSize
  startAfter : e.startAfter = config.startFactor * Scalar.ofNat config.poolSize
  seen : e.seen = rounds.length
  size : e.members.size = min rounds.length config.poolSize
  among : ∀ m ∈ e.members, m ∈ rounds
  starts : ∀ m ∈ e.members, m.starts.size = d.size
  cells : e.cache.size = d.size * d.size
  past : ∀ answer ∈ e.cache, answer.1 ≤ e.generation
  present : ∀ s < d.size, ∀ t < d.size, ∀ x,
    e.cache[s * d.size + t]? = some (e.generation, x) →
      x = e.share s t ∧ ∀ m ∈ e.members, m.EndsInTime d s

variable {config : EliteConfig α} {rounds : List (EliteMember α)} {e e' : EliteScorer ρ α}
  {r : EliteMember α}

/-- The empty pool has not answered yet. -/
lemma stamped_empty (some_room : 0 < config.poolSize) (d : Array Int) (seed : UInt64) :
    Stamped d config [] (empty d config seed : EliteScorer ρ α) where
  paired := rfl
  durations := rfl
  capacity := Nat.max_eq_left some_room
  startAfter := rfl
  seen := rfl
  size := (Nat.zero_min _).symm
  among _ impossible := absurd impossible (Array.not_mem_empty _)
  starts _ impossible := absurd impossible (Array.not_mem_empty _)
  cells := Array.size_replicate
  past answer member := by
    rw [(Array.mem_replicate.1 member).2]
    exact Nat.zero_le _
  present s hs t ht x answered := by
    have unanswered := Array.mem_of_getElem? answered
    cases (Array.mem_replicate.1 unanswered).2

omit [RandomSource ρ] in
/-- If a change of the pool begins a new generation, then the answers of all generations before do not count. -/
lemma Stamped.next (h : Stamped d config rounds e) (told : Told e (e.seen + 1) e')
    (size : e'.members.size = min (rounds ++ [r]).length config.poolSize)
    (some_of : ∀ m ∈ e'.members, m = r ∨ m ∈ e.members) (proper : r.starts.size = d.size)
    (next : e'.generation = e.generation + 1) : Stamped d config (rounds ++ [r]) e' where
  paired := told.paired
  durations := told.durations.trans h.durations
  capacity := told.capacity.trans h.capacity
  startAfter := told.startAfter.trans h.startAfter
  seen := by
    rw [told.seen, h.seen, List.length_append]
    rfl
  size := size
  among m member := by
    rcases some_of m member with rfl | before
    · exact List.mem_append_right _ List.mem_cons_self
    · exact List.mem_append_left _ (h.among m before)
  starts m member := by
    rcases some_of m member with rfl | before
    · exact proper
    · exact h.starts m before
  cells := by rw [told.cache, h.cells]
  past answer member := by
    rw [told.cache] at member
    rw [next]
    exact (h.past answer member).trans (Nat.le_succ _)
  present s hs t ht x answered := by
    rw [told.cache, next] at answered
    have stamp : e.generation + 1 ≤ e.generation := h.past _ (Array.mem_of_getElem? answered)
    exact absurd stamp (Nat.not_succ_le_self _)

omit [RandomSource ρ] in
/-- A round that is passed over leaves all answers right. -/
lemma Stamped.pass (h : Stamped d config rounds e) (told : Told e (e.seen + 1) e')
    (full : e.capacity ≤ e.members.size) (members : e'.members = e.members)
    (stays : e'.generation = e.generation) : Stamped d config (rounds ++ [r]) e' where
  paired := told.paired
  durations := told.durations.trans h.durations
  capacity := told.capacity.trans h.capacity
  startAfter := told.startAfter.trans h.startAfter
  seen := by
    rw [told.seen, h.seen, List.length_append]
    rfl
  size := by
    have size := h.size
    rw [h.capacity] at full
    rw [members, List.length_append]
    omega
  among m member := List.mem_append_left _ (h.among m (members ▸ member))
  starts m member := h.starts m (members ▸ member)
  cells := by rw [told.cache, h.cells]
  past answer member := by
    rw [told.cache] at member
    rw [stays]
    exact h.past answer member
  present s hs t ht x answered := by
    rw [told.cache, stays] at answered
    unfold share
    rw [members, told.durations, told.capacity]
    exact h.present s hs t ht x answered

omit [RandomSource ρ] in
/-- A change leaves no answer that is not right any more with the present stamp. -/
lemma Stamped.change (h : Stamped d config rounds e) (proper : r.starts.size = d.size)
    (told : Told e (e.seen + 1) e') (change : Change e r e') : Stamped d config (rounds ++ [r]) e' := by
  have size := h.size
  have capacity := h.capacity
  have length : (rounds ++ [r]).length = rounds.length + 1 := List.length_append ..
  cases change with
  | entered room members _ next =>
    refine h.next told ?_ (fun m member => ?_) proper next
    · rw [members, Array.size_push, length]
      omega
    · rw [members] at member
      exact (Array.mem_push.1 member).symm
  | replaced full held i inside worse members _ next =>
    refine h.next told ?_ (fun m member => ?_) proper next
    · rw [members, Array.size_set, length]
      omega
    · rw [members] at member
      exact (Array.mem_or_eq_of_mem_set member).symm
  | passed full _ members _ stays => exact h.pass told full members stays

omit [RandomSource ρ] in
/-- The pool gives no share before it has seen enough rounds. -/
lemma Stamped.score_early (h : Stamped d config rounds e)
    (early : config.TooFew rounds.length) (s t : Nat) : e.score s t = .ok (1, e) := by
  unfold EliteConfig.TooFew at early
  unfold EliteScorer.score
  rw [h.seen, h.startAfter, if_pos early]
  rfl

omit [RandomSource ρ] in
/-- The pool remembers a share that it has computed. -/
lemma Stamped.remember (h : Stamped d config rounds e) (ht : t < d.size)
    (inside : s * d.size + t < e.cache.size) (ends : ∀ m ∈ e.members, m.EndsInTime d s) :
    Stamped d config rounds
      { e with cache := e.cache.set (s * d.size + t) (e.generation, e.share s t) inside } where
  paired := h.paired
  durations := h.durations
  capacity := h.capacity
  startAfter := h.startAfter
  seen := h.seen
  size := h.size
  among := h.among
  starts := h.starts
  cells := (Array.size_set inside).trans h.cells
  past answer member := by
    rcases Array.mem_or_eq_of_mem_set (w := inside) member with before | rfl
    · exact h.past answer before
    · exact le_rfl
  present s' hs' t' ht' x answered := by
    by_cases here : s = s' ∧ t = t'
    · obtain ⟨rfl, rfl⟩ := here
      rw [Array.getElem?_set_self] at answered
      cases answered
      exact ⟨rfl, ends⟩
    · rw [Array.getElem?_set_ne _ (mt (MatrixScorer.cell_unique ht ht').1 here)] at answered
      exact h.present s' hs' t' ht' x answered

omit [RandomSource ρ] in
/-- The pool answers with the share, whether it remembers it or has to compute it. -/
lemma Stamped.score (h : Stamped d config rounds e) (hs : s < d.size) (ht : t < d.size)
    (late : ¬config.TooFew rounds.length) :
    (e.score s t).AnswersIf (d.size ≤ 4294967296 ∧ ∀ m ∈ e.members, m.EndsInTime d s)
      fun answer => answer.1 = e.share s t ∧ (∀ m ∈ e.members, m.EndsInTime d s) ∧
        Stamped d config rounds answer.2 := by
  have sizes : ∀ m ∈ e.members.toList, m.starts.size = d.size := fun m member =>
    h.starts m (Array.mem_toList_iff.1 member)
  obtain rfl := h.durations
  unfold EliteConfig.TooFew at late
  rw [← h.seen, ← h.startAfter] at late
  unfold EliteScorer.score
  rw [if_neg late]
  refine ((MatrixScorer.cellOf_answersIf hs ht).mono And.left).bind fun cell same => ?_
  subst same
  have inside : s * e.durations.size + t < e.cache.size := h.cells ▸ cell_lt hs ht
  rw [fetch_of_lt inside, ok_bind]
  dsimp only
  split
  · -- the stamp is the present one
    rename_i current
    obtain ⟨same, ends⟩ := h.present s hs t ht e.cache[s * e.durations.size + t].2 (by
      rw [Array.getElem?_eq_getElem inside, ← current])
    exact .pure ⟨same, ends, h⟩
  · rw [fetch_valueAt hs, ok_bind, ← h.paired.map_starts, countOrdered_eq hs ht sizes]
    simp only [Array.mem_toList_iff]
    by_cases ends : ∀ m ∈ e.members, m.EndsInTime e.durations s
    · rw [if_pos ends, ok_bind, store_of_lt _ inside, ok_bind]
      exact .pure ⟨rfl, ends, h.remember ht inside ends⟩
    · rw [if_neg ends, error_bind]
      exact .inr ⟨fun safe => ends safe.2, rfl⟩

/-! ## Calls -/

/-- What a pool is asked or told. -/
inductive Call (α : Type) where
  /-- The share of a pair of jobs is asked for. -/
  | ask (source target : Nat)
  /-- A round has ended. -/
  | tell (round : EliteMember α)

namespace Call

/-- The jobs that are asked for exist, and a round has one start for each job. -/
def Proper (n : Nat) : Call α → Prop
  | ask source target => source < n ∧ target < n
  | tell round => round.starts.size = n

/-- The rounds that are told. -/
def told : Call α → List (EliteMember α)
  | ask _ _ => []
  | tell round => [round]

end Call

/-- The pool after a call. -/
def serve (e : EliteScorer ρ α) : Call α → Checked (EliteScorer ρ α)
  | .ask source target => return (← e.score source target).2
  | .tell round => e.learn round.score round.starts

/-- **Step.**  No answer is out of date after a call. -/
lemma Stamped.serve (h : Stamped d config rounds e) (some_room : 0 < config.poolSize) {call : Call α}
    (proper : call.Proper d.size) :
    (e.serve call).AnswersIf (d.size ≤ 4294967296 ∧ ∀ r ∈ rounds, ∀ s < d.size, r.EndsInTime d s)
      (Stamped d config (rounds ++ call.told)) := by
  cases call with
  | ask s t =>
    obtain ⟨hs, ht⟩ := proper
    unfold EliteScorer.serve Call.told
    dsimp only
    rw [List.append_nil]
    by_cases early : config.TooFew rounds.length
    · rw [h.score_early early s t, ok_bind]
      exact .pure h
    · refine ((h.score hs ht early).mono fun safe => ?_).bind fun answer ⟨_, _, stamped⟩ => .pure stamped
      exact ⟨safe.1, fun m member => safe.2 m (h.among m member) s hs⟩
  | tell r =>
    have room : e.members.size ≤ e.capacity := by
      rw [h.size, h.capacity]
      exact Nat.min_le_right _ _
    exact ((learn_answers (h.capacity ▸ some_room) h.paired room).imp fun e' ⟨told, change⟩ =>
      h.change proper told change).answersIf

/-- **Run.**  No answer is out of date after any calls. -/
lemma Stamped.serves (some_room : 0 < config.poolSize) {calls : List (Call α)} :
    ∀ {rounds : List (EliteMember α)} {e : EliteScorer ρ α}, Stamped d config rounds e →
      (∀ call ∈ calls, call.Proper d.size) →
        (calls.foldlM EliteScorer.serve e).AnswersIf
          (d.size ≤ 4294967296 ∧ ∀ r ∈ rounds ++ calls.flatMap Call.told, ∀ s < d.size, r.EndsInTime d s)
          (Stamped d config (rounds ++ calls.flatMap Call.told)) := by
  induction calls with
  | nil =>
    intro rounds e h _
    rw [List.flatMap_nil, List.append_nil]
    exact .pure h
  | cons call rest ih =>
    intro rounds e h proper
    obtain ⟨first, others⟩ := List.forall_mem_cons.1 proper
    rw [List.foldlM_cons, List.flatMap_cons, ← List.append_assoc]
    refine ((h.serve some_room first).mono fun safe => ?_).bind fun e' h' => ih h' others
    exact ⟨safe.1, fun r member => safe.2 r (by simp [member])⟩

/-! ## Answers -/

/-- What a pool answers for a pair of jobs after the given rounds: one before there are enough rounds, and then the
share of its members, all of which are there, unless the first job ends too late or too early in one of them. -/
structure Tells (d : Array Int) (config : EliteConfig α) (rounds : List (EliteMember α))
    (e : EliteScorer ρ α) (s t : Nat) : Prop where
  early : config.TooFew rounds.length → e.score s t = .ok (1, e)
  late : ¬config.TooFew rounds.length → (∀ m ∈ e.members, m.EndsInTime d s) →
    (e.score s t).AnswersIf (d.size ≤ 4294967296) fun answer =>
      answer.1 = Scalar.ofNat (e.members.toList.countP fun m => m.Orders d s t) /
        Scalar.ofNat config.poolSize
  overflow : ¬config.TooFew rounds.length → (∃ m ∈ e.members, ¬m.EndsInTime d s) →
    e.score s t = .error .overflow
  full : ¬config.TooFew rounds.length → Scalar.IsExact α → e.members.size = config.poolSize

omit [RandomSource ρ] in
/-- What a pool answers whose stamps are right. -/
lemma Stamped.tells (h : Stamped d config rounds e) (factor : 1 ≤ config.startFactor) (hs : s < d.size)
    (ht : t < d.size) : Tells d config rounds e s t where
  early early := h.score_early early s t
  late late ends := by
    refine ((h.score hs ht late).mono fun few => ⟨few, ends⟩).imp fun answer ⟨same, _⟩ => ?_
    rw [same, share, h.durations, h.capacity]
  overflow late := by
    rintro ⟨m, member, outside⟩
    rcases h.score hs ht late with ⟨_, _, _, ends, _⟩ | ⟨_, stops⟩
    · exact absurd (ends m member) outside
    · exact stops
  full late exact_numbers := by
    obtain ⟨_, rfl⟩ := exact_numbers
    rw [h.size]
    exact Nat.min_eq_right (EliteConfig.poolSize_le factor late)

/-- **Shares.**  With settings that are accepted, a pool that is asked for pairs of jobs and told rounds in any order
answers at each time for each pair of jobs with the share of the members that it has then, however old the answers
are that it remembers.  There may be an overflow on the way only if the cells of the table are too many, or if a
job ends in one of the rounds too late or too early. -/
theorem shares_never_stale {settings : Config α} (accepted : settings.check = .ok ()) (d : Array Int)
    (seed : UInt64) {calls : List (Call α)} (proper : ∀ call ∈ calls, call.Proper d.size) :
    (calls.foldlM serve (empty d settings.elite seed : EliteScorer ρ α)).AnswersIf
      (d.size ≤ 4294967296 ∧ ∀ r ∈ calls.flatMap Call.told, ∀ s < d.size, r.EndsInTime d s)
      fun e => ∀ s < d.size, ∀ t < d.size, Tells d settings.elite (calls.flatMap Call.told) e s t := by
  have valid := EliteConfig.valid_of_check accepted
  refine ((stamped_empty valid.poolSize d seed).serves valid.poolSize proper).imp ?_
  intro e h s hs t ht
  exact h.tells valid.startFactor hs ht

end

/-! ### Four rounds -/

/-- The settings with a pool for two schedules are accepted. -/
lemma duo_accepted : duo.check = .ok () := by with_unfolding_all rfl

/-- Four rounds, after the third of which the first pair of jobs is asked for. -/
def askedInBetween : List (Call ℚ) :=
  [.tell ⟨10, #[0, 1]⟩, .ask 0 1, .tell ⟨8, #[1, 0]⟩, .tell ⟨5, #[0, 1]⟩, .ask 0 1, .tell ⟨4, #[0, 1]⟩]

/-- The first job has finished in both members when the second one starts; the share was one half when it was
asked for before. -/
theorem shares_never_stale_duo :
    duo.check = .ok () ∧ (∀ call ∈ askedInBetween, call.Proper 2) ∧
      (askedInBetween.foldlM serve (empty #[1, 1] duo.elite 42 : EliteScorer ChaCha ℚ)).Answers fun e =>
        e.members.size = 2 ∧ (e.score 0 1).Answers fun answer => answer.1 = 1 := by
  have proper : ∀ call ∈ askedInBetween, call.Proper 2 := by
    simp only [askedInBetween, List.forall_mem_cons, Call.Proper]
    simp
  have ends : ∀ r ∈ askedInBetween.flatMap Call.told, ∀ s < 2, r.EndsInTime #[1, 1] s := by decide
  have late : ¬duo.elite.TooFew (askedInBetween.flatMap Call.told).length := by
    unfold EliteConfig.TooFew
    decide +kernel
  have both : (askedInBetween.foldlM serve (empty #[1, 1] duo.elite 42 : EliteScorer ChaCha ℚ)).Answers
      fun e => (∀ m ∈ e.members, m.EndsInTime #[1, 1] 0) ∧
        e.members.toList.countP (fun m => m.Orders #[1, 1] 0 1) = 2 := by decide +kernel
  refine ⟨duo_accepted, proper, ?_⟩
  have run : (askedInBetween.foldlM serve (empty #[1, 1] duo.elite 42 : EliteScorer ChaCha ℚ)).Answers
      fun e => ∀ s < 2, ∀ t < 2, Tells #[1, 1] duo.elite (askedInBetween.flatMap Call.told) e s t :=
    (shares_never_stale duo_accepted #[1, 1] 42 proper).answers ⟨by decide, ends⟩
  refine (run.and both).imp ?_
  rintro e ⟨tells, ends, two⟩
  have tells := tells 0 (by decide) 1 (by decide)
  refine ⟨tells.full late ExactScalar.isExact, ?_⟩
  refine ((tells.late late ends).answers (by decide)).imp fun answer same => ?_
  rw [same, two]
  decide +kernel

/-! ### A schedule at the end of time -/

/-- Settings with a pool for one schedule that is asked from the first round on. -/
def eager : Config ℚ :=
  { solo with elite := { solo.elite with startFactor := 1 } }

/-- A pool that was told of a job that starts as late as possible cannot say what comes after it. -/
theorem share_overflow_late :
    eager.check = .ok () ∧ (Call.tell (⟨10, #[greatestTime, 0]⟩ : EliteMember ℚ)).Proper 2 ∧
      ([Call.tell ⟨10, #[greatestTime, 0]⟩].foldlM serve
        (empty #[1, 1] eager.elite 42 : EliteScorer ChaCha ℚ)).Answers fun e =>
          ¬eager.elite.TooFew 1 ∧ e.score 0 1 = .error .overflow := by
  have late : ¬eager.elite.TooFew 1 := by
    unfold EliteConfig.TooFew
    decide +kernel
  refine ⟨by with_unfolding_all rfl, rfl, _, rfl, late, ?_⟩
  with_unfolding_all rfl

end EliteScorer

end Leveling
