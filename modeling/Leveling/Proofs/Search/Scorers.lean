import Leveling.Proofs.Network.Arcs
import Leveling.Proofs.Search.Pools
import Leveling.Search.Scorer.Basic

/-!
# Scorers answer

The scorers keep tables with a cell for each pair of jobs, a ring of recent rounds, and a pool of
schedules.  As long as there are no more than `2 ^ 32` jobs the number of a cell is a counter, and
the tables never change their sizes, so a scorer answers whatever it is asked about jobs.  What the
scores are plays no part here.
-/

namespace Leveling

open Checked

variable {ρ α : Type} [RandomSource ρ] [Scalar α] {F : Frame} {n s t : Nat} {net : Network}

/-- A table with a cell for each pair of jobs has the cell of a pair of jobs. -/
lemma cell_lt (hs : s < n) (ht : t < n) : s * n + t < n * n :=
  calc s * n + t < s * n + n := Nat.add_lt_add_left ht _
    _ = (s + 1) * n := (Nat.succ_mul s n).symm
    _ ≤ n * n := Nat.mul_le_mul_right n hs

/-- The cell of a pair of jobs. -/
lemma cellOf_eq (few : n ≤ 4294967296) (hs : s < n) (ht : t < n) :
    cellOf n s t = .ok (s * n + t) ∧ s * n + t < n * n := by
  have inside := cell_lt hs ht
  have all : n * n ≤ 18446744073709551616 := Nat.mul_le_mul few few
  unfold cellOf asCount
  rw [if_pos (by omega), ok_bind, if_pos (by omega)]
  exact ⟨rfl, inside⟩

/-! ## The reinforcement matrix -/

namespace MatrixScorer

variable {m : MatrixScorer α}

/-- The tables have a cell for each pair of jobs, and the next place in the ring is there or is the
next one to be added. -/
structure Fit (n : Nat) (m : MatrixScorer α) : Prop where
  numJobs : m.numJobs = n
  first : m.first.size = n * n
  second : m.second.size = n * n
  window : m.window.size ≤ m.capacity
  position : m.position < m.capacity

/-- The empty matrix fits. -/
lemma fit_empty (n : Nat) (config : MatrixConfig α) : (empty n config).Fit n :=
  ⟨rfl, Array.size_replicate, Array.size_replicate, Nat.zero_le _, Nat.le_max_right _ _⟩

/-- The score of a pair of jobs. -/
lemma Fit.score (fit : m.Fit n) (few : n ≤ 4294967296) (hs : s < n) (ht : t < n) :
    (m.score s t).Answers fun _ => True := by
  obtain ⟨cell, inside⟩ := cellOf_eq few hs ht
  unfold MatrixScorer.score
  rw [fit.numJobs, cell, ok_bind, fetch_of_lt (lt_of_lt_of_eq inside fit.first.symm), ok_bind]
  split
  · exact .pure trivial
  · rw [fetch_of_lt (lt_of_lt_of_eq inside fit.second.symm), ok_bind]
    exact .pure trivial

omit [Scalar α] in
/-- The quality of a round is put into the ring. -/
lemma Fit.remember (fit : m.Fit n) (quality : α) : (m.remember quality).Answers (Fit n) := by
  have next : (m.position + 1) % m.capacity < m.capacity :=
    Nat.mod_lt _ (Nat.lt_of_le_of_lt (Nat.zero_le _) fit.position)
  unfold MatrixScorer.remember
  by_cases room : m.window.size < m.capacity
  · rw [if_pos room]
    refine .pure ⟨fit.numJobs, fit.first, fit.second, ?_, next⟩
    rw [Array.size_push]
    exact room
  · have full : m.window.size = m.capacity := Nat.le_antisymm fit.window (Nat.not_lt.1 room)
    have inside : m.position < m.window.size := lt_of_lt_of_eq fit.position full.symm
    rw [if_neg room, store_of_lt _ inside, ok_bind]
    refine .pure ⟨fit.numJobs, fit.first, fit.second, ?_, next⟩
    rw [Array.size_set]
    exact fit.window

/-- A reward is added for a pair of jobs. -/
lemma addReward_answers {table : Array (Reward α)} (size : table.size = n * n)
    (few : n ≤ 4294967296) (hs : s < n) (ht : t < n) (period : Nat) (reward : α) :
    (addReward n period reward table s t).Answers fun table' => table'.size = n * n := by
  obtain ⟨cell, inside⟩ := cellOf_eq few hs ht
  have inside : s * n + t < table.size := lt_of_lt_of_eq inside size.symm
  unfold addReward adjust
  rw [cell, ok_bind, fetch_of_lt inside, ok_bind]
  dsimp only
  rw [ok_bind, store_of_lt _ inside]
  exact .ok ((Array.size_set _).trans size)

/-- The matrix learns from a round. -/
lemma Fit.learn (fit : m.Fit n) (few : n ≤ 4294967296) (linked : net.Linked)
    (jobs : net.numJobs = n) (quality : α) : (m.learn quality net).Answers (Fit n) := by
  unfold MatrixScorer.learn
  refine (fit.remember quality).bind fun m' fit' => ?_
  have rewards : ∀ {table : Array (Reward α)}, table.size = n * n →
      ((net.arcs.filter fun ((_, arc) : Nat × Arc) => !arc.permanent).foldlM
        (fun (table : Array (Reward α)) ((source, arc) : Nat × Arc) =>
          addReward m'.numJobs m'.period (m.reward quality) table source arc.target)
        table).Answers fun table' => table'.size = n * n := by
    intro table size
    refine Answers.foldlM (fun (table : Array (Reward α)) => table.size = n * n)
      (fun table size => ?_) size
    rintro ⟨v, a⟩ member
    obtain ⟨i, entry⟩ := Network.mem_arcs.1 (List.mem_filter.1 member).1
    have ends := linked.lt_of_arc entry
    rw [jobs] at ends
    dsimp only
    rw [fit'.numJobs]
    exact addReward_answers size few ends.1 ends.2 _ _
  dsimp only
  split
  · exact .pure fit'
  · split
    · exact (rewards fit'.second).bind fun table size =>
        .pure ⟨fit'.numJobs, fit'.first, size, fit'.window, fit'.position⟩
    · exact (rewards fit'.first).bind fun table size =>
        .pure ⟨fit'.numJobs, size, fit'.second, fit'.window, fit'.position⟩

omit [Scalar α] in
/-- A new period changes no table. -/
lemma Fit.onIteration (fit : m.Fit n) (iteration : Nat) : (m.onIteration iteration).Fit n := by
  unfold MatrixScorer.onIteration
  split
  · exact ⟨fit.numJobs, fit.first, fit.second, fit.window, fit.position⟩
  · exact fit

end MatrixScorer

/-! ## The elite pool -/

/-- A list of starts at which all jobs finish at a time. -/
structure Finishes (F : Frame) (starts : Array Int) : Prop where
  size : starts.size = F.size
  nonneg : ∀ v, 0 ≤ valueAt starts v
  finish : ∀ v, valueAt starts v + valueAt F.durations v ≤ greatestTime

namespace EliteScorer

variable {e : EliteScorer ρ α}

/-- The table has a cell for each pair of jobs, and the pool holds lists of starts. -/
structure Fit (F : Frame) (e : EliteScorer ρ α) : Prop where
  paired : e.Paired
  durations : e.durations = F.durations
  cache : e.cache.size = F.size * F.size
  members : ∀ m ∈ e.members, Finishes F m.starts
  room : e.members.size ≤ e.capacity
  positive : 0 < e.capacity

/-- The empty pool fits. -/
lemma fit_empty (F : Frame) (config : EliteConfig α) (seed : UInt64) :
    Fit F (empty F.durations config seed : EliteScorer ρ α) :=
  ⟨rfl, rfl, Array.size_replicate, fun _ member => absurd member (Array.not_mem_empty _),
    Nat.zero_le _, Nat.le_max_right _ _⟩

omit [Scalar α] in
/-- The members that order two jobs are counted. -/
lemma countOrdered_answers (hs : s < F.size) (ht : t < F.size) {members : List (EliteMember α)}
    (finishes : ∀ m ∈ members, Finishes F m.starts) :
    (countOrdered (valueAt F.durations s) s t (members.map EliteMember.starts)).Answers
      fun _ => True := by
  have ends : ∀ m ∈ members, m.EndsInTime F.durations s := by
    intro m member
    have lower := (finishes m member).nonneg s
    have duration := F.duration_nonneg s
    exact ⟨by unfold leastTime; omega, (finishes m member).finish s⟩
  rw [countOrdered_eq hs ht fun m member => (finishes m member).size, if_pos ends]
  exact .ok trivial

omit [RandomSource ρ] in
/-- The score of a pair of jobs. -/
lemma Fit.score (fit : e.Fit F) (few : F.size ≤ 4294967296) (hs : s < F.size) (ht : t < F.size) :
    (e.score s t).Answers fun r => r.2.Fit F := by
  obtain ⟨cell, inside⟩ := cellOf_eq few hs ht
  have inside : s * F.size + t < e.cache.size := lt_of_lt_of_eq inside fit.cache.symm
  have cell : cellOf e.durations.size s t = .ok (s * F.size + t) := by
    rw [fit.durations]
    exact cell
  have duration : fetch e.durations s = .ok (valueAt F.durations s) := by
    rw [fit.durations]
    exact fetch_valueAt hs
  have members : ∀ m ∈ e.members.toList, Finishes F m.starts := fun m member =>
    fit.members m (Array.mem_toList_iff.1 member)
  unfold EliteScorer.score
  split
  · exact .pure fit
  · rw [cell, ok_bind, fetch_of_lt inside, ok_bind]
    dsimp only
    split
    · exact .pure fit
    · rw [duration, ok_bind]
      rw [← fit.paired.map_starts]
      refine (countOrdered_answers hs ht members).bind fun count _ => ?_
      rw [store_of_lt _ inside, ok_bind]
      exact .pure ⟨fit.paired, fit.durations, (Array.size_set inside).trans fit.cache, fit.members,
        fit.room, fit.positive⟩

/-- The pool learns from a round. -/
lemma Fit.learn (fit : e.Fit F) {starts : Array Int} (finishes : Finishes F starts) (quality : α) :
    (e.learn quality starts).Answers (Fit F) := by
  refine (learn_answers (r := ⟨quality, starts⟩) fit.positive fit.paired fit.room).imp ?_
  rintro e' ⟨told, change⟩
  have new : (∀ m ∈ e'.members, m = ⟨quality, starts⟩ ∨ m ∈ e.members) ∧
      e'.members.size ≤ e.capacity := by
    cases change with
    | entered room members =>
      rw [members, Array.size_push]
      exact ⟨fun m member => (Array.mem_push.1 member).symm, room⟩
    | replaced _ _ i inside _ members =>
      rw [members, Array.size_set]
      exact ⟨fun m member => (Array.mem_or_eq_of_mem_set member).symm, fit.room⟩
    | passed _ _ members =>
      rw [members]
      exact ⟨fun m => .inr, fit.room⟩
  refine ⟨told.paired, told.durations.trans fit.durations, ?_, fun m member => ?_, ?_, ?_⟩
  · rw [told.cache]
    exact fit.cache
  · rcases new.1 m member with rfl | old
    · exact finishes
    · exact fit.members m old
  · rw [told.capacity]
    exact new.2
  · rw [told.capacity]
    exact fit.positive

end EliteScorer

/-! ## All scorers -/

namespace Scorer

mutual

/-- All parts of a scorer fit. -/
def Fit (F : Frame) : Scorer ρ α → Prop
  | .uniform => True
  | .matrix m => m.Fit F.size
  | .elite e => e.Fit F
  | .combined parts => AllFit F parts

/-- All listed scorers fit. -/
def AllFit (F : Frame) : List (Scorer ρ α) → Prop
  | [] => True
  | part :: rest => Fit F part ∧ AllFit F rest

end

/-- The scorer that the settings ask for fits. -/
lemma fit_ofConfig {p : Problem α} (durations : F.durations = p.durations) (config : Config α) :
    Fit F (ofConfig config p : Scorer ρ α) := by
  have size : F.size = p.numJobs := by
    unfold Frame.size
    rw [durations]
    exact Array.size_map
  have matrix : Fit F (matrixOf config p : Scorer ρ α) := by
    unfold matrixOf Fit
    rw [← size]
    exact MatrixScorer.fit_empty _ _
  have elite : Fit F (eliteOf config p : Scorer ρ α) := by
    unfold eliteOf Fit
    rw [← durations]
    exact EliteScorer.fit_empty F _ _
  unfold ofConfig
  split
  · trivial
  · exact matrix
  · exact elite
  · exact ⟨matrix, elite, trivial⟩

omit [RandomSource ρ] in
mutual

/-- The score of a pair of jobs. -/
theorem Fit.score (few : F.size ≤ 4294967296) (hs : s < F.size) (ht : t < F.size) :
    ∀ {scorer : Scorer ρ α}, Fit F scorer →
      (Scorer.score s t scorer).Answers fun r => Fit F r.2
  | .uniform, _ => .ok trivial
  | .matrix _, fit => (MatrixScorer.Fit.score fit few hs ht).bind fun _ _ => .pure fit
  | .elite _, fit => (EliteScorer.Fit.score fit few hs ht).bind fun _ fit' => .pure fit'
  | .combined _, fit => (AllFit.scores few hs ht fit).bind fun _ fit' => .pure fit'

/-- The scores of a pair of jobs, part by part. -/
theorem AllFit.scores (few : F.size ≤ 4294967296) (hs : s < F.size) (ht : t < F.size) :
    ∀ {parts : List (Scorer ρ α)}, AllFit F parts →
      (Scorer.scores s t parts).Answers fun r => AllFit F r.2
  | [], _ => .ok trivial
  | _ :: _, fit => (Fit.score few hs ht fit.1).bind fun _ first =>
    (AllFit.scores few hs ht fit.2).bind fun _ others => .pure ⟨first, others⟩

end

mutual

/-- A scorer learns from a round. -/
theorem Fit.learn (few : F.size ≤ 4294967296) (linked : net.Linked) (jobs : net.numJobs = F.size)
    {starts : Array Int} (finishes : Finishes F starts) (quality : α) :
    ∀ {scorer : Scorer ρ α}, Fit F scorer →
      (Scorer.learn quality starts net scorer).Answers (Fit F)
  | .uniform, _ => .ok trivial
  | .matrix _, fit => (MatrixScorer.Fit.learn fit few linked jobs quality).bind
    fun _ fit' => .pure fit'
  | .elite _, fit => (EliteScorer.Fit.learn fit finishes quality).bind fun _ fit' => .pure fit'
  | .combined _, fit => (AllFit.learnAll few linked jobs finishes quality fit).bind
    fun _ fit' => .pure fit'

/-- All parts of a scorer learn from a round. -/
theorem AllFit.learnAll (few : F.size ≤ 4294967296) (linked : net.Linked)
    (jobs : net.numJobs = F.size) {starts : Array Int} (finishes : Finishes F starts)
    (quality : α) : ∀ {parts : List (Scorer ρ α)}, AllFit F parts →
      (Scorer.learnAll quality starts net parts).Answers (AllFit F)
  | [], _ => .ok trivial
  | _ :: _, fit => (Fit.learn few linked jobs finishes quality fit.1).bind fun _ first =>
    (AllFit.learnAll few linked jobs finishes quality fit.2).bind
      fun _ others => .pure ⟨first, others⟩

end

omit [RandomSource ρ] [Scalar α] in
mutual

/-- A scorer still fits in the next iteration. -/
theorem Fit.onIteration (iteration : Nat) :
    ∀ {scorer : Scorer ρ α}, Fit F scorer → Fit F (Scorer.onIteration iteration scorer)
  | .uniform, _ => trivial
  | .matrix _, fit => MatrixScorer.Fit.onIteration fit iteration
  | .elite _, fit => fit
  | .combined _, fit => AllFit.onIterationAll iteration fit

/-- All parts of a scorer still fit in the next iteration. -/
theorem AllFit.onIterationAll (iteration : Nat) :
    ∀ {parts : List (Scorer ρ α)}, AllFit F parts →
      AllFit F (Scorer.onIterationAll iteration parts)
  | [], _ => trivial
  | _ :: _, fit => ⟨Fit.onIteration iteration fit.1, AllFit.onIterationAll iteration fit.2⟩

end

end Scorer

end Leveling
