import Mathlib.Order.Nat
import Leveling.Proofs.Bounds.Heights
import Leveling.Search.Scorer.Elite

/-!
# What a pool does with a round

A pool counts the members in which one job has finished when another one starts, and it learns from rounds.  What
it can do with a round is said once: the round enters if there is room, it takes the place of a member that is
not close to the best one, or it is passed over.  Whatever holds of the members of a pool after all rounds is
proved from these three cases.
-/

namespace Leveling

open Checked

variable {ρ α : Type} [RandomSource ρ] {n s t : Nat} {d : Array Int}

/-! ## Counting members -/

namespace EliteMember

/-- The first job has finished in the schedule when the second one starts. -/
def Orders (d : Array Int) (s t : Nat) (m : EliteMember α) : Prop :=
  valueAt m.starts s + valueAt d s ≤ valueAt m.starts t

/-- The end of the job in the schedule is in the range of times. -/
def EndsInTime (d : Array Int) (s : Nat) (m : EliteMember α) : Prop :=
  leastTime ≤ valueAt m.starts s + valueAt d s ∧
    valueAt m.starts s + valueAt d s ≤ greatestTime

/-- It can be decided which of two jobs is the first one. -/
instance (m : EliteMember α) : Decidable (m.Orders d s t) := Int.decLe _ _

/-- It can be decided whether a job ends in time. -/
instance (m : EliteMember α) : Decidable (m.EndsInTime d s) := instDecidableAnd

end EliteMember

namespace EliteScorer

variable [Scalar α] {e e' : EliteScorer ρ α} {r : EliteMember α} {best : α} {i : Nat}

omit [Scalar α] in
/-- The members are counted, or one of their jobs ends too late or too early. -/
lemma countOrdered_eq (hs : s < n) (ht : t < n) {members : List (EliteMember α)}
    (sizes : ∀ m ∈ members, m.starts.size = n) :
    countOrdered (valueAt d s) s t (members.map EliteMember.starts) =
      if ∀ m ∈ members, m.EndsInTime d s then
        .ok (members.countP fun m => m.Orders d s t) else .error .overflow := by
  induction members with
  | nil => exact (if_pos fun _ impossible => nomatch impossible).symm
  | cons m rest ih =>
    obtain ⟨size, sizes⟩ := List.forall_mem_cons.1 sizes
    rw [List.map_cons]
    unfold countOrdered
    rw [fetch_valueAt (size ▸ hs), ok_bind, fetch_valueAt (size ▸ ht), ih sizes]
    by_cases here : m.EndsInTime d s
    · rw [addTime_of_mem here.1 here.2, ok_bind, ok_bind]
      by_cases others : ∀ m ∈ rest, m.EndsInTime d s
      · rw [if_pos others, if_pos (List.forall_mem_cons.2 ⟨here, others⟩), ok_bind, List.countP_cons]
        refine congrArg Except.ok ?_
        by_cases first : m.Orders d s t
        · rw [if_pos (show _ ≤ _ from first), if_pos (decide_eq_true first)]
        · rw [if_neg (show ¬_ ≤ _ from first), if_neg (by rwa [decide_eq_true_iff]), Nat.add_zero]
      · rw [if_neg others, if_neg fun all => others (List.forall_mem_cons.1 all).2, error_bind]
    · have stops : addTime (valueAt m.starts s) (valueAt d s) = .error .overflow := if_neg here
      rw [stops, error_bind, if_neg fun all => here (List.forall_mem_cons.1 all).1]

/-! ## Two lists for the members -/

/-- The costs and the starts of the members stand at the same places. -/
def Paired (e : EliteScorer ρ α) : Prop := e.scores.size = e.starts.size

section

omit [RandomSource ρ] [Scalar α]

/-- The members, one after the other. -/
lemma toList_members (e : EliteScorer ρ α) :
    e.members.toList = List.zipWith .mk e.scores.toList e.starts.toList := rfl

/-- Each of the two lists has a place for each member. -/
lemma Paired.size_members (paired : e.Paired) : e.members.size = e.starts.size := by
  rw [← Array.length_toList, toList_members, List.length_zipWith, Array.length_toList, Array.length_toList,
    paired, Nat.min_self]

/-- The costs of the members. -/
lemma Paired.scores_getElem (paired : e.Paired) (inside : i < e.members.size) :
    ∃ inside' : i < e.scores.size, e.scores[i] = e.members[i].score := by
  rw [paired.size_members, ← paired] at inside
  refine ⟨inside, ?_⟩
  simp only [members, List.getElem_toArray, List.getElem_zipWith, Array.getElem_toList]

/-- The starts of the members. -/
lemma Paired.map_starts (paired : e.Paired) : e.members.toList.map EliteMember.starts = e.starts.toList := by
  refine List.ext_getElem ?_ fun i _ _ => ?_
  · rw [List.length_map, Array.length_toList, Array.length_toList, paired.size_members]
  · simp only [toList_members, List.getElem_map, List.getElem_zipWith]

/-- A schedule enters both lists. -/
lemma Paired.members_push (paired : e.Paired) (scores : e'.scores = e.scores.push r.score)
    (starts : e'.starts = e.starts.push r.starts) : e'.members = e.members.push r := by
  refine Array.toList_inj.1 ?_
  rw [Array.toList_push, toList_members, toList_members, scores, starts, Array.toList_push, Array.toList_push,
    List.zipWith_append paired]
  rfl

/-- A schedule is replaced in both lists. -/
lemma members_set (hs : i < e.scores.size) (ht : i < e.starts.size) (inside : i < e.members.size)
    (scores : e'.scores = e.scores.set i r.score hs) (starts : e'.starts = e.starts.set i r.starts ht) :
    e'.members = e.members.set i r inside := by
  refine Array.toList_inj.1 (List.ext_getElem ?_ fun j _ _ => ?_)
  · rw [Array.toList_set, List.length_set, toList_members, toList_members, List.length_zipWith,
      List.length_zipWith, scores, starts, Array.toList_set, Array.toList_set, List.length_set, List.length_set]
  · simp only [toList_members, scores, starts, Array.toList_set, List.getElem_zipWith, List.getElem_set]
    by_cases here : i = j
    · rw [if_pos here, if_pos here, if_pos here]
    · rw [if_neg here, if_neg here, if_neg here]

end

/-! ## Learning from a round -/

/-- The places to which a visit comes that starts from a place and goes around the pool. -/
def Meets (capacity index count i : Nat) : Prop := ∃ k < count, (index + k) % capacity = i

/-- The first place of a visit, or a later one. -/
lemma Meets.eq_or {index count : Nat} (meets : Meets n index (count + 1) i) :
    i = index % n ∨ Meets n (index + 1) count i := by
  obtain ⟨k, small, there⟩ := meets
  cases k with
  | zero => exact .inl there.symm
  | succ k => exact .inr ⟨k, Nat.lt_of_succ_lt_succ small, by rw [Nat.add_assoc, Nat.add_comm 1 k, there]⟩

/-- A visit of as many places as there are comes to each of them. -/
lemma meets_all (hi : i < n) (index : Nat) : Meets n index n i := by
  have start : index % n < n := Nat.mod_lt _ (Nat.zero_lt_of_lt hi)
  rcases le_or_gt (index % n) i with before | behind
  · refine ⟨i - index % n, by omega, ?_⟩
    rw [← Nat.mod_add_mod, Nat.add_sub_cancel' before, Nat.mod_eq_of_lt hi]
  · refine ⟨i + n - index % n, by omega, ?_⟩
    rw [← Nat.mod_add_mod, Nat.add_sub_cancel' (by omega), Nat.add_mod_right, Nat.mod_eq_of_lt hi]

/-- What a round leaves as it is: the settings, the table of shares, and the order of the two lists. -/
structure Told (e : EliteScorer ρ α) (rounds : Nat) (e' : EliteScorer ρ α) : Prop where
  durations : e'.durations = e.durations
  capacity : e'.capacity = e.capacity
  startAfter : e'.startAfter = e.startAfter
  cache : e'.cache = e.cache
  seen : e'.seen = rounds
  paired : e'.Paired

/-- What a visit of some places of a full pool does: the round takes the place of a member that is not close
to the best one, or it is passed over, which happens to a round better than the best only if all members that
are met are close to the best one. -/
inductive Shown (e : EliteScorer ρ α) (r : EliteMember α) (best : α) (met : Nat → Prop)
    (e' : EliteScorer ρ α) : Prop
  | replaced (i : Nat) (inside : i < e.members.size)
      (worse : ¬e.members[i].score - best < bestTolerance)
      (members : e'.members = e.members.set i r inside) (lower : e'.best = some (min best r.score))
      (next : e'.generation = e.generation + 1)
  | passed (near : r.score < best → ∀ i (inside : i < e.members.size), met i →
        e.members[i].score - best < bestTolerance)
      (members : e'.members = e.members) (same : e'.best = e.best)
      (stays : e'.generation = e.generation)

omit [RandomSource ρ] [Scalar α] in
/-- Random numbers that were used up before a round are not part of what it leaves. -/
lemma Told.of_source {source : ρ} {rounds : Nat} (told : Told { e with source } rounds e') : Told e rounds e' :=
  ⟨told.durations, told.capacity, told.startAfter, told.cache, told.seen, told.paired⟩

omit [RandomSource ρ] in
/-- Random numbers that were used up have no part in what a visit does. -/
lemma Shown.of_source {source : ρ} {met met' : Nat → Prop} (shown : Shown { e with source } r best met e')
    (more : r.score < best → ∀ i, met' i → met i) : Shown e r best met' e' := by
  cases shown with
  | replaced i inside worse members lower next => exact .replaced i inside worse members lower next
  | passed near members same stays =>
    exact .passed (fun better i inside there => near better i inside (more better i there)) members same stays

/-- A newcomer that is better than the best is always accepted, and nothing but a random number is used up
for the decision. -/
lemma accepts_eq (e : EliteScorer ρ α) (best gap quality : α) :
    ∃ accepted source, e.accepts best gap quality = (accepted, { e with source }) ∧
      (quality < best → accepted = true) := by
  unfold accepts
  by_cases better : quality < best
  · rw [if_pos better]
    exact ⟨true, e.source, rfl, fun _ => rfl⟩
  · rw [if_neg better]
    exact ⟨_, _, rfl, fun better' => absurd better' better⟩

omit [RandomSource ρ] in
/-- A newcomer takes the place of a member. -/
lemma replace_answers (paired : e.Paired) (inside : i < e.members.size)
    (worse : ¬e.members[i].score - best < bestTolerance) :
    (e.replace i r.score r.starts best).Answers fun e' =>
      Told e e.seen e' ∧ ∀ met, Shown e r best met e' := by
  have in_starts : i < e.starts.size := lt_of_lt_of_eq inside paired.size_members
  have in_scores : i < e.scores.size := lt_of_lt_of_eq in_starts paired.symm
  unfold replace
  rw [store_of_lt _ in_scores, ok_bind, store_of_lt _ in_starts, ok_bind]
  refine .pure ⟨⟨rfl, rfl, rfl, rfl, rfl, ?_⟩, fun _ => .replaced i inside worse ?_ rfl rfl⟩
  · unfold Paired
    rw [Array.size_set, Array.size_set]
    exact paired
  · exact members_set in_scores in_starts inside rfl rfl

/-- A visit of a full pool answers. -/
lemma visit_answers (count : Nat) : ∀ {index : Nat} {e : EliteScorer ρ α}, e.Paired →
    e.members.size = e.capacity → 0 < e.capacity →
      (visit r.score r.starts best index count e).Answers fun e' =>
        Told e e.seen e' ∧ Shown e r best (Meets e.capacity index count) e' := by
  induction count with
  | zero =>
    intro index e paired _ _
    refine .ok ⟨⟨rfl, rfl, rfl, rfl, rfl, paired⟩, .passed (fun _ i _ meets => ?_) rfl rfl rfl⟩
    obtain ⟨k, impossible, -⟩ := meets
    exact absurd impossible (Nat.not_lt_zero k)
  | succ count ih =>
    intro index e paired full positive
    have inside : index % e.capacity < e.members.size := by
      rw [full]
      exact Nat.mod_lt _ positive
    obtain ⟨in_scores, same_score⟩ := paired.scores_getElem inside
    unfold visit
    dsimp only
    rw [fetch_of_lt in_scores, ok_bind, same_score]
    split
    · rename_i close
      refine (ih paired full positive).imp fun e' ⟨told, shown⟩ => ⟨told, ?_⟩
      cases shown with
      | replaced i inside worse members lower next => exact .replaced i inside worse members lower next
      | passed near members same stays =>
        refine .passed (fun better i inside' meets => ?_) members same stays
        rcases meets.eq_or with rfl | later
        · exact close
        · exact near better i inside' later
    · rename_i worse
      obtain ⟨accepted, source, same, always⟩ :=
        e.accepts_eq best (e.members[index % e.capacity].score - best) r.score
      rw [same]
      dsimp only
      cases accepted with
      | true =>
        rw [if_pos rfl]
        refine (replace_answers (e := { e with source }) paired inside worse).imp ?_
        rintro e' ⟨told, shown⟩
        exact ⟨told.of_source, (shown _).of_source fun _ _ => id⟩
      | false =>
        rw [if_neg Bool.false_ne_true]
        refine (ih (e := { e with source }) paired full positive).imp ?_
        rintro e' ⟨told, shown⟩
        exact ⟨told.of_source, shown.of_source fun better => nomatch always better⟩

/-- What a round does to a pool: it enters if there is room, or it takes the place of a member that is not close
to the best one, or it is passed over, which happens to a round better than the best only if all members
are close to the best one. -/
inductive Change (e : EliteScorer ρ α) (r : EliteMember α) (e' : EliteScorer ρ α) : Prop
  | entered (room : e.members.size < e.capacity) (members : e'.members = e.members.push r)
      (lower : e'.best = some (Scalar.minWith e.best r.score))
      (next : e'.generation = e.generation + 1)
  | replaced (full : e.capacity ≤ e.members.size) {best : α} (held : e.best = some best) (i : Nat)
      (inside : i < e.members.size) (worse : ¬e.members[i].score - best < bestTolerance)
      (members : e'.members = e.members.set i r inside) (lower : e'.best = some (min best r.score))
      (next : e'.generation = e.generation + 1)
  | passed (full : e.capacity ≤ e.members.size) (near : ∀ best, e.best = some best → r.score < best →
        ∀ m ∈ e.members, m.score - best < bestTolerance)
      (members : e'.members = e.members) (same : e'.best = e.best)
      (stays : e'.generation = e.generation)

/-- A pool learns from a round. -/
lemma learn_answers (positive : 0 < e.capacity) (paired : e.Paired)
    (room : e.members.size ≤ e.capacity) :
    (e.learn r.score r.starts).Answers fun e' => Told e (e.seen + 1) e' ∧ Change e r e' := by
  have size := paired.size_members
  unfold learn
  dsimp only
  split
  · rename_i more
    refine .ok ⟨⟨rfl, rfl, rfl, rfl, rfl, ?_⟩, .entered (by omega) (paired.members_push rfl rfl) rfl rfl⟩
    unfold Paired
    rw [Array.size_push, Array.size_push, paired]
  · rename_i none_left
    have full : e.members.size = e.capacity := by omega
    split
    · rename_i nothing
      refine .ok ⟨⟨rfl, rfl, rfl, rfl, rfl, paired⟩, .passed full.ge (fun best held => ?_) rfl rfl rfl⟩
      rw [nothing] at held
      cases held
    · rename_i best held
      refine (visit_answers e.capacity (e := { e with seen := e.seen + 1 }) paired full positive).imp ?_
      rintro e' ⟨told, shown⟩
      refine ⟨⟨told.durations, told.capacity, told.startAfter, told.cache, told.seen, told.paired⟩, ?_⟩
      cases shown with
      | replaced i inside worse members lower next =>
        exact .replaced full.ge held i inside worse members lower next
      | passed near members same stays =>
        refine .passed full.ge (fun best' held' better m member => ?_) members same stays
        obtain rfl : best = best' := Option.some.inj (held.symm.trans held')
        obtain ⟨i, inside, rfl⟩ := Array.mem_iff_getElem.1 member
        exact near better i inside (meets_all (lt_of_lt_of_eq inside full) _)

end EliteScorer

end Leveling
