import Leveling.Proofs.Answers
import Leveling.Proofs.Walks
import Leveling.TopologicalOrder
import Mathlib.Algebra.BigOperators.Group.Finset.Basic
import Mathlib.Data.List.Perm.Subperm

/-!
# The topological order is right

While the free jobs are taken one after the other, the remaining degree of a job is the number
of arcs to it from jobs that are not taken yet, and the jobs with degree zero are those that
are taken or wait.  So whatever is taken has all its predecessors before it, and if the arcs
close no cycle, every job is taken in the end.
-/

namespace Leveling

open Checked

variable {succ : Nat → List Nat} {n : Nat} {degrees degrees' : Array Nat} {δ : Nat → Nat}
  {waiting taken order : List Nat}

/-- The degrees of the jobs below `n` are given by a function. -/
structure DegreesAre (degrees : Array Nat) (n : Nat) (δ : Nat → Nat) : Prop where
  size : degrees.size = n
  entry : ∀ w < n, degrees[w]? = some (δ w)

/-- Lowering the degree of a job by one. -/
lemma DegreesAre.set (h : DegreesAre degrees n δ) {t : Nat} (ht : t < degrees.size) :
    DegreesAre (degrees.set t (δ t - 1) ht) n fun w => δ w - if w = t then 1 else 0 where
  size := by rw [Array.size_set, h.size]
  entry w hw := by
    rw [Array.getElem?_set]
    by_cases here : t = w
    · subst here
      rw [if_pos rfl, if_pos rfl]
    · rw [if_neg here, if_neg (Ne.symm here), h.entry w hw, Nat.sub_zero]

/-- The jobs that are freed when the degrees of listed jobs are lowered are those whose degrees are used
up, each of them once. -/
structure Freed (δ : Nat → Nat) (ts freed : List Nat) : Prop where
  nodup : freed.Nodup
  mem_iff : ∀ w, w ∈ freed ↔ w ∈ ts ∧ δ w = ts.count w

/-- What is left of the degrees when one job is lowered before the others. -/
lemma sub_count_cons (δ : Nat → Nat) (t : Nat) (rest : List Nat) (w : Nat) :
    δ w - (t :: rest).count w = (δ w - if w = t then 1 else 0) - rest.count w := by
  rw [List.count_cons, Nat.sub_sub, Nat.add_comm]
  by_cases here : w = t
  · rw [here, if_pos rfl, if_pos (beq_self_eq_true t)]
  · rw [if_neg here, if_neg (by rw [beq_iff_eq]; exact Ne.symm here)]

/-- A job whose degree is used up is freed in front of the others. -/
lemma Freed.cons {t : Nat} {rest freed : List Nat} (enough : ∀ w, (t :: rest).count w ≤ δ w)
    (others : Freed (fun w => δ w - if w = t then 1 else 0) rest freed) :
    Freed δ (t :: rest) (if δ t - 1 = 0 then t :: freed else freed) := by
  have own := enough t
  have own_iff := others.mem_iff t
  rw [if_pos rfl] at own_iff
  rw [List.count_cons_self] at own
  have same : ∀ w, w ≠ t → (w ∈ freed ↔ w ∈ t :: rest ∧ δ w = (t :: rest).count w) := by
    intro w other
    rw [others.mem_iff, if_neg other, Nat.sub_zero, List.mem_cons,
      List.count_cons_of_ne (Ne.symm other)]
    simp [other]
  split
  · rename_i used_up
    have unlisted : t ∉ rest := List.count_eq_zero.1 (by omega)
    refine ⟨List.nodup_cons.2 ⟨fun again => unlisted (own_iff.1 again).1, others.nodup⟩, fun w => ?_⟩
    by_cases here : w = t
    · subst here
      have once := List.count_eq_zero.2 unlisted
      simp only [List.mem_cons_self, true_and, true_iff, List.count_cons_self]
      omega
    · rw [← same w here, List.mem_cons, or_iff_right here]
  · rename_i positive
    refine ⟨others.nodup, fun w => ?_⟩
    by_cases here : w = t
    · subst here
      rw [own_iff, List.count_cons_self, ← List.count_pos_iff]
      simp only [List.mem_cons_self, true_and]
      omega
    · exact same w here

/-- Lowering the degrees of listed jobs, none of which is lowered more often than it has a degree. -/
lemma lowerDegrees_answers {ts : List Nat} :
    ∀ {degrees : Array Nat} {δ : Nat → Nat}, DegreesAre degrees n δ → (∀ t ∈ ts, t < n) →
      (∀ w, ts.count w ≤ δ w) →
        (lowerDegrees degrees ts).Answers fun r =>
          DegreesAre r.1 n (fun w => δ w - ts.count w) ∧ Freed δ ts r.2 := by
  induction ts with
  | nil =>
    intro degrees δ h _ _
    exact .ok ⟨by simpa using h, .nil, fun w => by simp⟩
  | cons t rest ih =>
    intro degrees δ h inside enough
    have ht : t < n := inside t List.mem_cons_self
    have own := enough t
    rw [List.count_cons_self] at own
    unfold lowerDegrees
    rw [fetch_of_getElem? (h.entry t ht), ok_bind, subCount_of_le (by omega), ok_bind,
      store_of_lt _ (lt_of_lt_of_eq ht h.size.symm), ok_bind]
    refine (ih (h.set _) (fun w member => inside w (List.mem_cons_of_mem _ member)) fun w => ?_).bind
      fun r ⟨lowered, others⟩ => .pure ⟨?_, others.cons enough⟩
    · have := enough w
      rw [List.count_cons] at this
      by_cases here : w = t
      · subst here
        rw [if_pos rfl]
        omega
      · rw [if_neg here, Nat.sub_zero]
        omega
    · rwa [funext (sub_count_cons δ t rest)]

/-! ## Taking free jobs -/

/-- The number of arcs to a job from the jobs that are not taken yet. -/
def remaining (succ : Nat → List Nat) (n : Nat) (taken : List Nat) (w : Nat) : Nat :=
  ∑ u ∈ (Finset.range n).filter (· ∉ taken), (succ u).count w

/-- Taking a job removes its arcs. -/
lemma remaining_cons {v : Nat} (hv : v < n) (fresh : v ∉ taken) (w : Nat) :
    remaining succ n (v :: taken) w + (succ v).count w = remaining succ n taken w := by
  have split : (Finset.range n).filter (· ∉ taken) =
      insert v ((Finset.range n).filter (· ∉ v :: taken)) := by
    ext u
    simp only [Finset.mem_filter, Finset.mem_range, Finset.mem_insert, List.mem_cons, not_or]
    by_cases here : u = v
    · subst here
      simp [hv, fresh]
    · simp [here]
  unfold remaining
  rw [split, Finset.sum_insert (by simp), Nat.add_comm]

/-- No arc to a job remains if all its predecessors are taken. -/
lemma remaining_eq_zero {w : Nat} :
    remaining succ n taken w = 0 ↔ ∀ u < n, w ∈ succ u → u ∈ taken := by
  unfold remaining
  rw [Finset.sum_eq_zero_iff]
  simp only [Finset.mem_filter, Finset.mem_range, List.count_eq_zero]
  constructor
  · intro none u hu member
    by_contra fresh
    exact none u ⟨hu, fresh⟩ member
  · rintro all u ⟨hu, fresh⟩ member
    exact fresh (all u hu member)

/-- The degrees are those that remain, and the jobs without a degree are taken or wait. -/
structure Taking (succ : Nat → List Nat) (n : Nat) (degrees : Array Nat)
    (waiting taken : List Nat) : Prop where
  degrees : DegreesAre degrees n (remaining succ n taken)
  nodup : waiting.Nodup
  fresh : ∀ v ∈ waiting, v ∉ taken
  free : ∀ w < n, remaining succ n taken w = 0 ↔ w ∈ taken ∨ w ∈ waiting
  inside : ∀ v ∈ waiting, v < n

/-- Each job of a list has its successors behind it. -/
def PointsAhead (succ : Nat → List Nat) : List Nat → Prop
  | [] => True
  | v :: rest => (∀ t ∈ succ v, t ∈ rest) ∧ PointsAhead succ rest

/-- The jobs that are taken from some state on. -/
structure TakenFrom (succ : Nat → List Nat) (n : Nat) (taken order : List Nat) : Prop where
  nodup : order.Nodup
  fresh : ∀ v ∈ order, v ∉ taken
  inside : ∀ v ∈ order, v < n
  /-- A job whose predecessors are taken is taken as well. -/
  closed : ∀ w < n, (∀ u < n, w ∈ succ u → u ∈ taken ∨ u ∈ order) → w ∈ taken ∨ w ∈ order
  /-- If all jobs are taken, no arc points back. -/
  ahead : (∀ w < n, w ∈ taken ∨ w ∈ order) → PointsAhead succ order

/-- The arranged jobs are those that waited and those that were freed. -/
lemma mem_arrange {d : Discipline} {freed : List Nat} {v : Nat} :
    v ∈ d.arrange waiting freed ↔ v ∈ waiting ∨ v ∈ freed := by
  cases d with
  | queue => simp [Discipline.arrange]
  | stack => simp [Discipline.arrange, or_comm]

/-- The arranged jobs are different if they were so before. -/
lemma nodup_arrange {d : Discipline} {freed : List Nat} (hw : waiting.Nodup) (hf : freed.Nodup)
    (disjoint : ∀ v ∈ waiting, v ∉ freed) : (d.arrange waiting freed).Nodup := by
  cases d with
  | queue =>
    refine List.nodup_append.2 ⟨hw, hf, ?_⟩
    rintro v hv _ hv' rfl
    exact disjoint v hv hv'
  | stack =>
    refine List.nodup_append.2 ⟨List.nodup_reverse.2 hf, hw, ?_⟩
    rintro v hv _ hv' rfl
    exact disjoint v hv' (List.mem_reverse.1 hv)

section

variable {d : Discipline} {successors : Nat → Checked (List Nat)} {v : Nat} {rest freed : List Nat}

/-- A job that waits or is taken is no successor of a job that is not taken. -/
lemma Taking.not_mem_succ (now : Taking succ n degrees waiting taken) {w : Nat} (hw : w < n)
    (free : w ∈ taken ∨ w ∈ waiting) (hv : v < n) (fresh : v ∉ taken) : w ∉ succ v := fun member =>
  fresh (remaining_eq_zero.1 ((now.free w hw).2 free) v hv member)

section

variable (now : Taking succ n degrees (v :: rest) taken)
  (freed_spec : Freed (remaining succ n taken) (succ v) freed)

include now

/-- What remains after the first waiting job was taken. -/
lemma Taking.remaining_cons (w : Nat) :
    remaining succ n (v :: taken) w + (succ v).count w = remaining succ n taken w :=
  Leveling.remaining_cons (now.inside v List.mem_cons_self) (now.fresh v List.mem_cons_self) w

include freed_spec

/-- A freed job is a successor of the first waiting job, so it neither is taken nor waits. -/
lemma Taking.fresh_of_freed {w : Nat} (isFreed : w ∈ freed) (hw : w < n) :
    w ∉ taken ∧ w ∉ v :: rest := by
  have successor := ((freed_spec.mem_iff w).1 isFreed).1
  have hv := now.inside v List.mem_cons_self
  have fresh := now.fresh v List.mem_cons_self
  exact ⟨fun isTaken => now.not_mem_succ hw (.inl isTaken) hv fresh successor,
    fun waits => now.not_mem_succ hw (.inr waits) hv fresh successor⟩

/-- After the first waiting job was taken, the jobs without a degree are those that had none and those
that were freed. -/
lemma Taking.remaining_cons_eq_zero {w : Nat} (hw : w < n) :
    remaining succ n (v :: taken) w = 0 ↔ w ∈ v :: taken ∨ w ∈ rest ∨ w ∈ freed := by
  have balance := now.remaining_cons w
  have zero : remaining succ n (v :: taken) w = 0 ↔ remaining succ n taken w = 0 ∨ w ∈ freed := by
    rw [freed_spec.mem_iff]
    by_cases successor : w ∈ succ v
    · have := List.count_pos_iff.2 successor
      simp only [successor, true_and]
      omega
    · rw [List.count_eq_zero.2 successor, Nat.add_zero] at balance
      simp only [successor, false_and, or_false, balance]
  rw [zero, now.free w hw, List.mem_cons, List.mem_cons]
  tauto

/-- The state after the first waiting job was taken. -/
lemma Taking.take (inside : ∀ t ∈ succ v, t < n)
    (lowered : DegreesAre degrees' n fun w => remaining succ n taken w - (succ v).count w) :
    Taking succ n degrees' (d.arrange rest freed) (v :: taken) := by
  have freed_lt : ∀ w ∈ freed, w < n := fun w isFreed =>
    inside w ((freed_spec.mem_iff w).1 isFreed).1
  have apart : ∀ w ∈ freed, w ∉ taken ∧ w ∉ v :: rest := fun w isFreed =>
    now.fresh_of_freed freed_spec isFreed (freed_lt w isFreed)
  obtain ⟨first, nodup⟩ := List.nodup_cons.1 now.nodup
  refine ⟨?_, ?_, fun w member => ?_, fun w hw => ?_, fun w member => ?_⟩
  · have lower : ∀ w, remaining succ n (v :: taken) w =
        remaining succ n taken w - (succ v).count w := fun w => by
      have := now.remaining_cons w
      omega
    rwa [funext lower]
  · exact nodup_arrange nodup freed_spec.nodup fun w waits isFreed =>
      (apart w isFreed).2 (List.mem_cons_of_mem _ waits)
  · rw [List.mem_cons, not_or]
    rcases mem_arrange.1 member with waits | isFreed
    · refine ⟨?_, now.fresh w (List.mem_cons_of_mem _ waits)⟩
      rintro rfl
      exact first waits
    · refine ⟨?_, (apart w isFreed).1⟩
      rintro rfl
      exact (apart w isFreed).2 List.mem_cons_self
  · rw [mem_arrange]
    exact now.remaining_cons_eq_zero freed_spec hw
  · rcases mem_arrange.1 member with waits | isFreed
    · exact now.inside w (List.mem_cons_of_mem _ waits)
    · exact freed_lt w isFreed

end

/-- The first waiting job in front of the jobs that are taken after it. -/
lemma TakenFrom.cons (now : Taking succ n degrees (v :: rest) taken)
    (inside : ∀ t ∈ succ v, t < n) (later : TakenFrom succ n (v :: taken) order) :
    TakenFrom succ n taken (v :: order) := by
  have hv : v < n := now.inside v List.mem_cons_self
  have fresh : v ∉ taken := now.fresh v List.mem_cons_self
  have move : ∀ {w}, (w ∈ v :: taken ∨ w ∈ order) ↔ (w ∈ taken ∨ w ∈ v :: order) := by
    intro w
    rw [List.mem_cons, List.mem_cons]
    tauto
  refine ⟨List.nodup_cons.2 ⟨fun again => later.fresh v again List.mem_cons_self, later.nodup⟩,
    fun w member => ?_, fun w member => ?_, fun w hw preds => ?_, fun all => ⟨fun t successor => ?_,
    later.ahead fun w hw => move.2 (all w hw)⟩⟩
  · rcases List.mem_cons.1 member with rfl | member
    · exact fresh
    · exact fun isTaken => later.fresh w member (List.mem_cons_of_mem _ isTaken)
  · rcases List.mem_cons.1 member with rfl | member
    · exact hv
    · exact later.inside w member
  · exact move.1 (later.closed w hw fun u hu successor => move.2 (preds u hu successor))
  · have ht := inside t successor
    rcases move.2 (all t ht) with before | behind
    · -- `v` itself and the jobs taken before it are no successors of `v`
      rcases List.mem_cons.1 before with rfl | isTaken
      · exact absurd successor (now.not_mem_succ hv (.inr List.mem_cons_self) hv fresh)
      · exact absurd successor (now.not_mem_succ ht (.inl isTaken) hv fresh)
    · exact behind

/-- The first waiting job is taken before the others. -/
lemma takeFree_cons : takeFree d successors degrees (v :: rest) = (do
    let targets ← successors v
    let (degrees', freed) ← lowerDegrees degrees targets
    let order ← takeFree d successors degrees' (d.arrange rest freed)
    return v :: order) := by
  rw [takeFree]
  refine bind_congr fun targets => ?_
  cases lowerDegrees degrees targets <;> rfl

/-- Taking free jobs until none is left. -/
lemma Taking.takeFree (successors_eq : ∀ v < n, successors v = .ok (succ v))
    (inside : ∀ v < n, ∀ t ∈ succ v, t < n) :
    ∀ {degrees : Array Nat} {waiting taken : List Nat},
      Taking succ n degrees waiting taken →
        (takeFree d successors degrees waiting).Answers (TakenFrom succ n taken) := by
  intro degrees waiting
  induction degrees, waiting using takeFree.induct d with
  | case1 degrees =>
    intro taken now
    rw [Leveling.takeFree]
    refine .ok ⟨.nil, fun v member => absurd member List.not_mem_nil,
      fun v member => absurd member List.not_mem_nil, fun w hw preds => ?_, fun _ => trivial⟩
    refine (now.free w hw).1 (remaining_eq_zero.2 fun u hu successor => ?_)
    exact (preds u hu successor).resolve_right List.not_mem_nil
  | case2 degrees v rest ih =>
    intro taken now
    have hv : v < n := now.inside v List.mem_cons_self
    have enough : ∀ w, (succ v).count w ≤ remaining succ n taken w := fun w => by
      have := now.remaining_cons w
      omega
    obtain ⟨⟨degrees', freed⟩, answer, lowered, freed_spec⟩ :=
      lowerDegrees_answers now.degrees (inside v hv) enough
    rw [takeFree_cons, successors_eq v hv, ok_bind, answer, ok_bind]
    refine (ih _ _ _ answer (now.take freed_spec (inside v hv) lowered)).bind fun order later => ?_
    exact .pure (.cons now (inside v hv) later)

/-- An order of all jobs in which each job has its successors behind it. -/
structure IsOrder (succ : Nat → List Nat) (n : Nat) (order : List Nat) : Prop where
  nodup : order.Nodup
  mem : ∀ v, v ∈ order ↔ v < n
  ahead : PointsAhead succ order

/-- In the beginning the jobs without a predecessor wait. -/
lemma taking_start
    (degrees_eq : DegreesAre degrees n fun w => ∑ u ∈ Finset.range n, (succ u).count w) :
    Taking succ n degrees (d.arrange [] ((List.range degrees.size).filter
      fun v => degrees[v]? == some 0)) [] := by
  have none_taken : ∀ w, remaining succ n [] w = ∑ u ∈ Finset.range n, (succ u).count w := by
    intro w
    unfold remaining
    rw [Finset.filter_true_of_mem fun u _ => List.not_mem_nil]
  have waits : ∀ w, w ∈ d.arrange [] ((List.range degrees.size).filter
      fun v => degrees[v]? == some 0) ↔ w < n ∧ remaining succ n [] w = 0 := by
    intro w
    rw [mem_arrange, List.mem_filter, List.mem_range, degrees_eq.size, beq_iff_eq, none_taken,
      or_iff_right List.not_mem_nil]
    refine and_congr_right fun hw => ?_
    rw [degrees_eq.entry w hw, Option.some.injEq]
  refine ⟨?_, ?_, fun v _ => List.not_mem_nil, fun w hw => ?_, fun v member => ?_⟩
  · rwa [funext none_taken]
  · exact nodup_arrange .nil (List.nodup_range.filter _) fun v impossible =>
      absurd impossible List.not_mem_nil
  · rw [waits]
    simp [hw]
  · exact ((waits v).1 member).1

/-- If as many jobs are taken as there are, they are taken in an order. -/
lemma TakenFrom.isOrder (later : TakenFrom succ n [] order) (full : order.length = n) :
    IsOrder succ n order := by
  have perm : order.Perm (List.range n) := by
    refine (later.nodup.subperm fun v member => ?_).perm_of_length_le ?_
    · exact List.mem_range.2 (later.inside v member)
    · rw [full, List.length_range]
  have all : ∀ w < n, w ∈ order := fun w hw => perm.mem_iff.2 (List.mem_range.2 hw)
  exact ⟨later.nodup, fun v => ⟨later.inside v, all v⟩, later.ahead fun w hw => .inr (all w hw)⟩

/-- If no cycle is closed, all jobs are taken. -/
lemma TakenFrom.length_eq {R : Nat → Nat → Int → Prop} (later : TakenFrom succ n [] order)
    (arcs : ∀ u < n, ∀ w, w ∈ succ u ↔ Joined R u w) (sources : ∀ {u w lag}, R u w lag → u < n)
    (acyclic : Acyclic R) : order.length = n := by
  have all : ∀ w, w < n → w ∈ order := by
    intro w
    refine acyclic.induction sources (P := fun w => w < n → w ∈ order) (fun w ih hw => ?_) w
    have taken := later.closed w hw fun u hu successor => by
      obtain ⟨lag, arc⟩ := (arcs u hu w).1 successor
      exact .inr (ih u lag arc hu)
    exact taken.resolve_left List.not_mem_nil
  have perm : order.Perm (List.range n) := by
    refine (List.perm_ext_iff_of_nodup later.nodup List.nodup_range).2 fun v => ?_
    rw [List.mem_range]
    exact ⟨later.inside v, all v⟩
  rw [perm.length_eq, List.length_range]

/-- The procedure finds an order or nothing, and it finds an order if no cycle is closed. -/
theorem topologicalOrder?_answers {R : Nat → Nat → Int → Prop}
    (successors_eq : ∀ v < n, successors v = .ok (succ v))
    (inside : ∀ v < n, ∀ t ∈ succ v, t < n)
    (degrees_eq : DegreesAre degrees n fun w => ∑ u ∈ Finset.range n, (succ u).count w)
    (arcs : ∀ u < n, ∀ w, w ∈ succ u ↔ Joined R u w) (sources : ∀ {u w lag}, R u w lag → u < n) :
    (topologicalOrder? d successors degrees).Answers fun found =>
      (∀ order, found = some order → IsOrder succ n order) ∧
        (Acyclic R → ∃ order, found = some order) := by
  unfold topologicalOrder?
  refine ((taking_start degrees_eq).takeFree successors_eq inside).bind
    fun order later => .pure ⟨fun found same => ?_, fun acyclic => ?_⟩
  · split at same
    · rename_i full
      obtain rfl := Option.some.inj same
      exact later.isOrder (full.trans degrees_eq.size)
    · cases same
  · exact ⟨order, if_pos ((later.length_eq arcs sources acyclic).trans degrees_eq.size.symm)⟩

end

end Leveling
