import Mathlib.Data.List.Perm.Basic
import Mathlib.Data.List.Perm.Subperm
import Mathlib.Data.Rat.Cast.Order
import Leveling.Proofs.Search.Rewards
import Leveling.Random.ChaCha
import Leveling.Search.Scorer.Elite

/-!
# What an elite pool keeps

A round enters an elite pool as long as there is room.  After that it can only take the place of a member, and
the members that are close to the best one keep their places.  So the best member is never lost, and the
best quality of the pool is always that of a member.

The price is that a pool can *close*: once it is full and all its members are close to the best one, no
place is left for any later round, however good.  The best quality of a pool is the lowest quality of all
rounds only as long as the pool has not closed; from then on the pool never changes again.
-/

namespace Leveling

open Checked

variable {ρ α : Type} [RandomSource ρ]

/-- The pool has room for a schedule, and it is not asked before it can be full. -/
structure EliteConfig.Valid [Scalar α] (config : EliteConfig α) : Prop where
  poolSize : 0 < config.poolSize
  startFactor : 1 ≤ config.startFactor

/-- The settings of the pool are valid if all settings are accepted. -/
lemma EliteConfig.valid_of_check [Scalar α] {settings : Config α} (accepted : settings.check = .ok ()) :
    settings.elite.Valid := by
  unfold Config.check at accepted
  extract_lets last base factor pool fraction window horizon first at accepted
  have begun : first () = .ok () := by
    split at accepted
    · cases accepted
    · exact (MatrixScorer.ok_of_guard accepted).2
  obtain ⟨-, accepted⟩ := MatrixScorer.ok_of_guard begun
  obtain ⟨-, accepted⟩ := MatrixScorer.ok_of_guard accepted
  obtain ⟨-, accepted⟩ := MatrixScorer.ok_of_unless accepted
  obtain ⟨some_room, accepted⟩ := MatrixScorer.ok_of_guard accepted
  obtain ⟨late, -⟩ := MatrixScorer.ok_of_unless accepted
  exact ⟨Nat.pos_of_ne_zero some_room, late⟩

namespace EliteScorer

/-! ## Rounds -/

section

variable [Scalar α]

/-- Learns from rounds, one after the other. -/
def learnRounds (e : EliteScorer ρ α) (rounds : List (EliteMember α)) : Checked (EliteScorer ρ α) :=
  rounds.foldlM (fun e r => e.learn r.score r.starts) e

/-- Rounds after rounds. -/
lemma learnRounds_append (e : EliteScorer ρ α) (earlier later : List (EliteMember α)) :
    e.learnRounds (earlier ++ later) = e.learnRounds earlier >>= fun e' => e'.learnRounds later :=
  List.foldlM_append ..

end

/-! ## Members and rounds -/

section

variable [ExactScalar α] {e e' : EliteScorer ρ α} {rounds : List (EliteMember α)} {r : EliteMember α}
  {best : α}

/-- The tolerance is positive. -/
lemma bestTolerance_pos : (0 : α) < bestTolerance := by
  have cast : (bestTolerance : α) = ((1e-7 : ℚ≥0) : α) := rfl
  rw [cast]
  exact NNRat.cast_pos.2 (by decide +kernel)

/-- The lowest quality of some schedules and a newcomer, if one with the lowest quality before is still there. -/
lemma isLeast_min {old new : EliteMember α → Prop}
    (least : IsLeast {x | ∃ m, old m ∧ m.score = x} best) (newcomer : new r)
    (others : ∀ m, new m → m = r ∨ old m) (stays : ∃ m, new m ∧ m.score = best) :
    IsLeast {x | ∃ m, new m ∧ m.score = x} (min best r.score) := by
  constructor
  · rcases min_choice best r.score with same | same
    · rw [same]
      exact stays
    · rw [same]
      exact ⟨r, newcomer, rfl⟩
  · rintro _ ⟨m, member, rfl⟩
    rcases others m member with rfl | before
    · exact min_le_right _ _
    · exact (min_le_left _ _).trans (least.2 ⟨m, before, rfl⟩)

/-- The lowest quality of a single schedule. -/
lemma isLeast_single {single : EliteMember α → Prop} (only : ∀ m, single m ↔ m = r) :
    IsLeast {x | ∃ m, single m ∧ m.score = x} r.score := by
  refine ⟨⟨r, (only r).2 rfl, rfl⟩, ?_⟩
  rintro _ ⟨m, member, rfl⟩
  rw [(only m).1 member]

omit [ExactScalar α] in
/-- An entry is replaced by one that comes from elsewhere. -/
lemma subperm_set {l : List (EliteMember α)} {i : Nat} (hi : i < l.length) :
    (l.set i r).Subperm (l ++ [r]) := by
  have others : (r :: l.eraseIdx i).Subperm (r :: l) :=
    ((List.eraseIdx_sublist l i).cons_cons r).subperm
  exact ((List.set_perm_cons_eraseIdx hi r).subperm.trans others).trans
    (List.perm_append_singleton r l).symm.subperm

/-- Each member has a cost and starts, the members are some of the rounds, as many as there is room for, and the
best quality is the lowest one of a member. -/
structure Pooled (rounds : List (EliteMember α)) (e : EliteScorer ρ α) : Prop where
  paired : e.Paired
  seen : e.seen = rounds.length
  size : e.members.size = min rounds.length e.capacity
  among : e.members.toList.Subperm rounds
  none_iff : e.best = none ↔ rounds = []
  least : ∀ best, e.best = some best → IsLeast {x | ∃ m ∈ e.members, m.score = x} best

/-- The empty pool has seen no rounds. -/
lemma pooled_empty (durations : Array Int) (config : EliteConfig α) (seed : UInt64) :
    Pooled [] (empty durations config seed : EliteScorer ρ α) where
  paired := rfl
  seen := rfl
  size := (Nat.zero_min _).symm
  among := List.nil_subperm
  none_iff := iff_of_true rfl rfl
  least _ nothing := nomatch nothing

omit [RandomSource ρ] in
/-- Besides a member that is not close to the best one there is a best one. -/
lemma Pooled.exists_other (h : Pooled rounds e) (held : e.best = some best) {i : Nat}
    (inside : i < e.members.size) (worse : ¬e.members[i].score - best < bestTolerance) :
    ∃ j, ∃ inside' : j < e.members.size, j ≠ i ∧ e.members[j].score = best := by
  obtain ⟨m, member, lowest⟩ := (h.least best held).1
  obtain ⟨j, inside', rfl⟩ := Array.mem_iff_getElem.1 member
  refine ⟨j, inside', ?_, lowest⟩
  rintro rfl
  rw [lowest, sub_self] at worse
  exact worse bestTolerance_pos

omit [RandomSource ρ] in
/-- The lowest quality of the members after a round has entered. -/
lemma Pooled.least_push (h : Pooled rounds e) :
    IsLeast {x | ∃ m ∈ e.members.push r, m.score = x} (Scalar.minWith e.best r.score) := by
  cases held : e.best with
  | none =>
    have empty : e.members = #[] := by
      rw [← Array.size_eq_zero_iff, h.size, h.none_iff.1 held, List.length_nil, Nat.zero_min]
    rw [empty]
    exact isLeast_single fun m => Array.mem_push.trans (or_iff_right (Array.not_mem_empty m))
  | some best =>
    obtain ⟨m, member, lowest⟩ := (h.least best held).1
    refine isLeast_min (h.least best held) Array.mem_push_self (fun m' member' => ?_)
      ⟨m, Array.mem_push.2 (.inl member), lowest⟩
    exact (Array.mem_push.1 member').symm

omit [RandomSource ρ] in
/-- The lowest quality of the members after a round has taken the place of one that is not close to the
best one. -/
lemma Pooled.least_set (h : Pooled rounds e) (held : e.best = some best) {i : Nat}
    (inside : i < e.members.size) (worse : ¬e.members[i].score - best < bestTolerance) :
    IsLeast {x | ∃ m ∈ e.members.set i r inside, m.score = x} (min best r.score) := by
  obtain ⟨j, inside', other, lowest⟩ := h.exists_other held inside worse
  refine isLeast_min (h.least _ held) (Array.mem_set inside) (fun m member => ?_)
    ⟨e.members[j], ?_, lowest⟩
  · exact (Array.mem_or_eq_of_mem_set (w := inside) member).symm
  · refine Array.mem_iff_getElem.2 ⟨j, by rwa [Array.size_set], ?_⟩
    exact Array.getElem_set_ne inside inside' other.symm

omit [RandomSource ρ] in
/-- **Step.**  The members are still some of the rounds after one more round. -/
lemma Pooled.change (h : Pooled rounds e) (positive : 0 < e.capacity) (told : Told e (e.seen + 1) e')
    (change : Change e r e') : Pooled (rounds ++ [r]) e' := by
  have size := h.size
  have length : (rounds ++ [r]).length = rounds.length + 1 := List.length_append ..
  have more : rounds ++ [r] ≠ [] := List.append_ne_nil_of_right_ne_nil _ (List.cons_ne_nil _ _)
  have seen : e'.seen = (rounds ++ [r]).length := by rw [told.seen, h.seen, length]
  cases change with
  | entered room members lower =>
    refine ⟨told.paired, seen, ?_, ?_, iff_of_false (by simp [lower]) more, fun best held => ?_⟩
    · rw [members, told.capacity, Array.size_push, length]
      omega
    · rw [members, Array.toList_push]
      exact h.among.append (List.Subperm.refl _)
    · rw [lower] at held
      cases held
      rw [members]
      exact h.least_push
  | replaced full held i inside worse members lower =>
    refine ⟨told.paired, seen, ?_, ?_, iff_of_false (by simp [lower]) more, fun best' held' => ?_⟩
    · rw [members, told.capacity, Array.size_set, length]
      omega
    · rw [members, Array.toList_set]
      exact (subperm_set (by rwa [Array.length_toList])).trans (h.among.append (List.Subperm.refl _))
    · rw [lower] at held'
      cases held'
      rw [members]
      exact h.least_set held inside worse
  | passed full near members same =>
    have some_rounds : rounds ≠ [] := by
      rintro rfl
      rw [List.length_nil, Nat.zero_min] at size
      omega
    refine ⟨told.paired, seen, ?_, ?_, ?_, fun best held => ?_⟩
    · rw [members, told.capacity, length]
      omega
    · rw [members]
      exact h.among.trans (List.sublist_append_left _ _).subperm
    · rw [same]
      exact iff_of_false (fun nothing => some_rounds (h.none_iff.1 nothing)) more
    · rw [members]
      exact h.least best (same ▸ held)

/-- **Run.**  The members are some of all rounds. -/
lemma Pooled.learnRounds (later : List (EliteMember α)) : ∀ {rounds : List (EliteMember α)}
    {e : EliteScorer ρ α}, Pooled rounds e → 0 < e.capacity →
      (e.learnRounds later).Answers fun e' => Pooled (rounds ++ later) e' ∧ e'.capacity = e.capacity := by
  induction later with
  | nil =>
    intro rounds e h _
    rw [List.append_nil]
    exact .pure ⟨h, rfl⟩
  | cons r later ih =>
    intro rounds e h positive
    unfold EliteScorer.learnRounds
    rw [List.foldlM_cons]
    refine (learn_answers positive h.paired (h.size ▸ Nat.min_le_right _ _)).bind fun e' ⟨told, change⟩ => ?_
    refine (ih (h.change positive told change) (told.capacity ▸ positive)).imp fun e'' ⟨pooled, same⟩ => ?_
    rw [List.append_cons]
    exact ⟨pooled, same.trans told.capacity⟩

variable (ρ) in
/-- Rounds are learned by a pool from its beginning. -/
lemma pooled_learnRounds {config : EliteConfig α} (some_room : 0 < config.poolSize)
    (durations : Array Int) (seed : UInt64) (rounds : List (EliteMember α)) :
    ((empty durations config seed : EliteScorer ρ α).learnRounds rounds).Answers fun e =>
      Pooled rounds e ∧ e.capacity = config.poolSize := by
  have capacity : (empty durations config seed : EliteScorer ρ α).capacity = config.poolSize :=
    Nat.max_eq_left some_room
  refine ((pooled_empty durations config seed).learnRounds rounds (capacity ▸ some_room)).imp ?_
  rintro e ⟨pooled, same⟩
  exact ⟨pooled, same.trans capacity⟩

/-- What a pool keeps when it learns from a round: the best quality does not rise, the best members keep their
places, and a round better than the best takes the place of another member if the pool is full and has one
that is not close to the best one. -/
structure Keeps (e : EliteScorer ρ α) (r : EliteMember α) (e' : EliteScorer ρ α) : Prop where
  never_rises : ∀ best, e.best = some best → ∃ best' ≤ best, e'.best = some best'
  stays : ∀ (i : Nat) m, e.members[i]? = some m → e.best = some m.score → e'.members[i]? = some m
  enters : ∀ best, e.best = some best → e.members.size = e.capacity → r.score < best →
    (∃ m ∈ e.members, best + bestTolerance ≤ m.score) → ∃ i, ∃ inside : i < e.members.size,
      best + bestTolerance ≤ e.members[i].score ∧ e'.members = e.members.set i r inside

omit [RandomSource ρ] in
/-- The best members survive every change. -/
lemma Change.keeps (change : Change e r e') : Keeps e r e' := by
  have far : ∀ {best score : α}, ¬score - best < bestTolerance ↔ best + bestTolerance ≤ score := by
    intro best score
    rw [not_lt, le_sub_iff_add_le']
  cases change with
  | entered room members lower =>
    refine ⟨fun best held => ?_, fun i m there _ => ?_, fun best _ full => absurd full room.ne⟩
    · rw [lower, held]
      exact ⟨_, min_le_left _ _, rfl⟩
    · obtain ⟨inside, same⟩ := Array.getElem?_eq_some_iff.1 there
      rwa [members, Array.getElem?_push_lt inside, Option.some_inj]
  | replaced full held i inside worse members lower =>
    refine ⟨fun best held' => ?_, fun j m there held' => ?_, fun best held' _ _ _ => ?_⟩
    · obtain rfl := Option.some.inj (held.symm.trans held')
      exact ⟨_, min_le_left _ _, lower⟩
    · obtain rfl := Option.some.inj (held.symm.trans held')
      have other : i ≠ j := by
        rintro rfl
        obtain ⟨_, rfl⟩ := Array.getElem?_eq_some_iff.1 there
        rw [sub_self] at worse
        exact worse bestTolerance_pos
      rwa [members, Array.getElem?_set_ne inside other]
    · obtain rfl := Option.some.inj (held.symm.trans held')
      exact ⟨i, inside, far.1 worse, members⟩
  | passed full near members same =>
    refine ⟨fun best held => ⟨best, le_rfl, same.trans held⟩, fun _ _ there _ => members ▸ there,
      fun best held _ better ⟨m, member, worse⟩ => ?_⟩
    exact absurd (near best held better m member) (far.2 worse)

/-- **Elite pool.**  With exact scalars and room for at least one schedule, the members of a pool are after any
rounds some of these rounds, as many as there is room for; the best quality of the pool is the lowest one of
a member; and the next round keeps what is best. -/
theorem keeps_best_members {config : EliteConfig α} (some_room : 0 < config.poolSize)
    (durations : Array Int) (seed : UInt64) (rounds : List (EliteMember α)) :
    ((empty durations config seed : EliteScorer ρ α).learnRounds rounds).Answers fun e =>
      e.capacity = config.poolSize ∧ Pooled rounds e ∧
        ∀ r : EliteMember α, (e.learn r.score r.starts).Answers (Keeps e r) := by
  refine (pooled_learnRounds ρ some_room durations seed rounds).imp fun e ⟨pooled, capacity⟩ => ?_
  refine ⟨capacity, pooled, fun r => ?_⟩
  exact (learn_answers (capacity ▸ some_room) pooled.paired (pooled.size ▸ Nat.min_le_right _ _)).imp
    fun _ ⟨_, change⟩ => change.keeps

/-! ### Three rounds -/

/-- Settings with a pool for two schedules. -/
def duo : Config ℚ :=
  { Config.default with timeLimit := some 1, elite := { EliteConfig.default with poolSize := 2 } }

/-- Three rounds, each better than the ones before. -/
def betterAndBetter : List (EliteMember ℚ) := [⟨10, #[0, 1]⟩, ⟨8, #[1, 0]⟩, ⟨5, #[0, 1]⟩]

/-- The pool for two schedules has after the three rounds the two best ones, and keeps the best one whatever the
next round is. -/
theorem keeps_best_members_duo :
    0 < duo.elite.poolSize ∧
      ((empty #[1, 1] duo.elite 42 : EliteScorer ChaCha ℚ).learnRounds betterAndBetter).Answers fun e =>
        e.members.size = 2 ∧ e.best = some 5 ∧
          ∀ r : EliteMember ℚ, (e.learn r.score r.starts).Answers (Keeps e r) := by
  have some_room : 0 < duo.elite.poolSize := by decide
  have best : ((empty #[1, 1] duo.elite 42 : EliteScorer ChaCha ℚ).learnRounds betterAndBetter).Answers
      fun e => e.best = some 5 := by decide +kernel
  refine ⟨some_room, ?_⟩
  refine ((keeps_best_members some_room #[1, 1] 42 betterAndBetter).and best).imp ?_
  rintro e ⟨⟨capacity, pooled, keeps⟩, best⟩
  refine ⟨?_, best, keeps⟩
  rw [pooled.size, capacity]
  rfl

/-! ## Closed pools -/

/-- The pool is full, and all its members are close to the best one. -/
def Closed (e : EliteScorer ρ α) : Prop :=
  e.capacity ≤ e.members.size ∧
    ∀ best, e.best = some best → ∀ m ∈ e.members, m.score - best < bestTolerance

omit [RandomSource ρ] in
/-- No round changes a closed pool. -/
lemma Closed.change (closed : e.Closed) (told : Told e (e.seen + 1) e') (change : Change e r e') :
    e'.Closed ∧ e'.members = e.members ∧ e'.best = e.best := by
  cases change with
  | entered room => exact absurd room (not_lt.2 closed.1)
  | replaced _ held i inside worse =>
    exact absurd (closed.2 _ held _ (Array.getElem_mem inside)) worse
  | passed _ near members same =>
    refine ⟨?_, members, same⟩
    unfold Closed
    rw [told.capacity, members, same]
    exact closed

omit [RandomSource ρ] in
/-- As long as the pool has not closed, the best quality takes notice of each round. -/
lemma Change.best_eq (change : Change e r e') (h : Pooled rounds e) (positive : 0 < e.capacity)
    (is_open : ¬e.Closed) : e'.best = some (Scalar.minWith e.best r.score) := by
  cases change with
  | entered room members lower => exact lower
  | replaced _ held i inside worse members lower =>
    rw [lower, held]
    rfl
  | passed full near members same =>
    rw [same]
    cases held : e.best with
    | none =>
      have size := h.size
      rw [h.none_iff.1 held, List.length_nil, Nat.zero_min] at size
      omega
    | some best =>
      have no_better : best ≤ r.score := by
        refine not_lt.1 fun better => is_open ⟨full, fun best' held' => ?_⟩
        obtain rfl := Option.some.inj (held.symm.trans held')
        exact near best held better
      exact congrArg some (min_eq_left no_better).symm

/-- One more round. -/
lemma learnRounds_concat (e : EliteScorer ρ α) (rounds : List (EliteMember α)) (r : EliteMember α) :
    e.learnRounds (rounds ++ [r]) = e.learnRounds rounds >>= fun e' => e'.learn r.score r.starts := by
  rw [learnRounds_append]
  refine bind_congr fun e' => ?_
  unfold learnRounds
  rw [List.foldlM_cons]
  exact bind_pure _

/-- The best quality is the lowest one of all rounds if the pool has not closed before the last of them. -/
lemma least_of_open {config : EliteConfig α} (some_room : 0 < config.poolSize) (durations : Array Int)
    (seed : UInt64) (rounds : List (EliteMember α)) :
    ((empty durations config seed : EliteScorer ρ α).learnRounds rounds).Answers fun e =>
      (∀ earlier, earlier <+: rounds → earlier ≠ rounds →
        ¬((empty durations config seed : EliteScorer ρ α).learnRounds earlier).Answers Closed) →
      ∀ best, e.best = some best → IsLeast {x | ∃ r ∈ rounds, r.score = x} best := by
  induction rounds using List.reverseRecOn with
  | nil => exact .pure fun _ _ nothing => nomatch nothing
  | append_singleton rounds r ih =>
    obtain ⟨e, answer, pooled, capacity⟩ := pooled_learnRounds ρ some_room durations seed rounds
    have positive : 0 < e.capacity := capacity ▸ some_room
    rw [learnRounds_concat, answer, ok_bind]
    refine (learn_answers positive pooled.paired (pooled.size ▸ Nat.min_le_right _ _)).imp ?_
    intro e' ⟨_, change⟩ is_open
    have is_open' : ¬e.Closed := fun closed =>
      is_open rounds (List.prefix_append _ _) (by simp) ⟨e, answer, closed⟩
    rw [change.best_eq pooled positive is_open']
    rintro _ ⟨⟩
    cases held : e.best with
    | none =>
      rw [pooled.none_iff.1 held]
      exact isLeast_single fun m => List.mem_singleton
    | some best =>
      have least := ih.of_eq_ok answer (fun earlier before different => ?_) best held
      · obtain ⟨m, member, lowest⟩ := least.1
        refine isLeast_min least (List.mem_append_right _ List.mem_cons_self) (fun m member => ?_)
          ⟨m, List.mem_append_left _ member, lowest⟩
        exact (List.mem_append.1 member).symm.imp_left List.mem_singleton.1
      · refine is_open earlier (before.trans (List.prefix_append _ _)) ?_
        rintro rfl
        exact different (before.eq_of_length_le (by simp))

/-- Rounds after the pool has closed have no effect on its members. -/
lemma Closed.learnRounds {later : List (EliteMember α)} : ∀ {e : EliteScorer ρ α}, e.Closed →
    e.Paired → e.members.size ≤ e.capacity → 0 < e.capacity →
      (e.learnRounds later).Answers fun e' => e'.members = e.members ∧ e'.best = e.best := by
  induction later with
  | nil => exact fun _ _ _ _ => .pure ⟨rfl, rfl⟩
  | cons r later ih =>
    intro e closed paired room positive
    unfold EliteScorer.learnRounds
    rw [List.foldlM_cons]
    refine (learn_answers positive paired room).bind fun e' ⟨told, change⟩ => ?_
    obtain ⟨closed', members, best⟩ := closed.change told change
    have room' : e'.members.size ≤ e'.capacity := by rwa [members, told.capacity]
    rw [← members, ← best]
    exact ih closed' told.paired room' (told.capacity ▸ positive)

/-- **Best quality.**  With exact scalars and settings that are accepted, the best quality of a pool is after any
rounds that of a member.  It is the lowest quality of all these rounds if the pool has not closed before the
last of them, and once the pool has closed, neither the members nor the best quality change any more. -/
theorem best_until_closed {settings : Config α} (accepted : settings.check = .ok ())
    (durations : Array Int) (seed : UInt64) {rounds : List (EliteMember α)} (some_rounds : rounds ≠ []) :
    ((empty durations settings.elite seed : EliteScorer ρ α).learnRounds rounds).Answers fun e =>
      (∃ m ∈ e.members, e.best = some m.score) ∧
      ((∀ earlier, earlier <+: rounds → earlier ≠ rounds →
          ¬((empty durations settings.elite seed : EliteScorer ρ α).learnRounds earlier).Answers Closed) →
        ∀ best, e.best = some best → IsLeast {x | ∃ r ∈ rounds, r.score = x} best) ∧
      ∀ earlier, earlier <+: rounds →
        ((empty durations settings.elite seed : EliteScorer ρ α).learnRounds earlier).Answers fun e₁ =>
          e₁.Closed → e.members = e₁.members ∧ e.best = e₁.best := by
  have some_room := (EliteConfig.valid_of_check accepted).poolSize
  obtain ⟨e, answer, pooled, -⟩ := pooled_learnRounds ρ some_room durations seed rounds
  refine ⟨e, answer, ?_, (least_of_open some_room durations seed rounds).of_eq_ok answer, ?_⟩
  · obtain ⟨best, held⟩ := Option.ne_none_iff_exists'.1 fun nothing => some_rounds (pooled.none_iff.1 nothing)
    obtain ⟨m, member, lowest⟩ := (pooled.least best held).1
    exact ⟨m, member, by rw [held, lowest]⟩
  · rintro earlier ⟨later, rfl⟩
    obtain ⟨e₁, answer₁, pooled₁, capacity⟩ := pooled_learnRounds ρ some_room durations seed earlier
    refine ⟨e₁, answer₁, fun closed => ?_⟩
    rw [learnRounds_append, answer₁, ok_bind] at answer
    have room : e₁.members.size ≤ e₁.capacity := pooled₁.size ▸ Nat.min_le_right _ _
    exact (closed.learnRounds pooled₁.paired room (capacity ▸ some_room)).of_eq_ok answer

/-! ### A pool for one schedule -/

/-- Settings with a pool for one schedule. -/
def solo : Config ℚ :=
  { Config.default with timeLimit := some 1, elite := { EliteConfig.default with poolSize := 1 } }

/-- A round, and a better one. -/
def goodAndBetter : List (EliteMember ℚ) := [⟨10, #[0, 1]⟩, ⟨5, #[1, 0]⟩]

/-- The settings with a pool for one schedule are accepted. -/
lemma solo_accepted : solo.check = .ok () := by with_unfolding_all rfl

/-- The pool for one schedule closes with the first round, and the second one has no effect. -/
theorem best_until_closed_solo :
    solo.check = .ok () ∧ goodAndBetter ≠ [] ∧
      ((empty #[1, 1] solo.elite 42 : EliteScorer ChaCha ℚ).learnRounds goodAndBetter).Answers fun e =>
        (∃ m ∈ e.members, e.best = some m.score) ∧
          ((empty #[1, 1] solo.elite 42 : EliteScorer ChaCha ℚ).learnRounds [⟨10, #[0, 1]⟩]).Answers fun e₁ =>
            e₁.Closed ∧ e.members = e₁.members ∧ e.best = e₁.best := by
  refine ⟨solo_accepted, List.cons_ne_nil _ _, ?_⟩
  refine (best_until_closed solo_accepted #[1, 1] 42 (List.cons_ne_nil _ _)).imp ?_
  rintro e ⟨held, -, unchanged⟩
  have first := unchanged [⟨10, #[0, 1]⟩] ⟨[⟨5, #[1, 0]⟩], rfl⟩
  have closed : ((empty #[1, 1] solo.elite 42 : EliteScorer ChaCha ℚ).learnRounds [⟨10, #[0, 1]⟩]).Answers
      Closed := by
    refine ⟨_, rfl, le_rfl, ?_⟩
    rintro _ ⟨⟩ m member
    obtain rfl := Array.mem_singleton.1 member
    decide +kernel
  exact ⟨held, (closed.and first).imp fun e₁ ⟨closed, same⟩ => ⟨closed, same closed⟩⟩

/-- A pool for one schedule passes over a round that is better than all rounds before. -/
theorem better_passed_over_solo :
    solo.check = .ok () ∧
      ((empty #[1, 1] solo.elite 42 : EliteScorer ChaCha ℚ).learnRounds goodAndBetter).Answers fun e =>
        e.best = some 10 ∧ (∀ m ∈ e.members, m.score ≠ 5) ∧
          IsLeast {x | ∃ r ∈ goodAndBetter, r.score = x} 5 := by
  have run : ((empty #[1, 1] solo.elite 42 : EliteScorer ChaCha ℚ).learnRounds goodAndBetter).Answers
      fun e => e.best = some 10 ∧ ∀ m ∈ e.members, m.score ≠ 5 := by decide +kernel
  refine ⟨solo_accepted, run.imp fun e ⟨best, other⟩ => ⟨best, other, ⟨_, .tail _ (.head _), rfl⟩, ?_⟩⟩
  rintro _ ⟨r, member, rfl⟩
  simp only [goodAndBetter, List.mem_cons, List.not_mem_nil, or_false] at member
  rcases member with rfl | rfl
  · decide +kernel
  · exact le_rfl

end

end EliteScorer

end Leveling
