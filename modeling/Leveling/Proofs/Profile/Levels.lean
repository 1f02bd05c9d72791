import Leveling.Proofs.Exact
import Leveling.Proofs.Profile.Shapes
import Mathlib.Order.Bounds.Basic

/-!
# Levels in event trees

Over exact numbers the level after an event is the sum of the changes up to it, and all questions
about the levels of a tree are questions about the list of its changes.  The summaries of a shaped
tree are right for that list: a node knows the sum of the changes in its subtree, the highest and the
lowest level after one of them, and two events between which they all lie.  So a search that passes
over a subtree because of its summary misses nothing.
-/

namespace Leveling

variable {α : Type} [ExactScalar α]

/-! ## Levels of lists -/

/-- The events of a list with the level after each of them, counted from `level`. -/
def levels (level : α) : List (Change α) → List (Event × α)
  | [] => []
  | c :: rest => (c.event, level + c.amount) :: levels (level + c.amount) rest

/-- The sum of the changes of a list. -/
def total (changes : List (Change α)) : α := (changes.map Change.amount).sum

@[simp] lemma total_nil : total ([] : List (Change α)) = 0 := rfl

@[simp] lemma total_cons (c : Change α) (rest : List (Change α)) :
    total (c :: rest) = c.amount + total rest := List.sum_cons

@[simp] lemma total_append (first rest : List (Change α)) :
    total (first ++ rest) = total first + total rest := by
  unfold total
  rw [List.map_append, List.sum_append]

/-- The levels of two lists in a row. -/
lemma levels_append (level : α) (first rest : List (Change α)) :
    levels level (first ++ rest) = levels level first ++ levels (level + total first) rest := by
  induction first generalizing level with
  | nil => simp [levels]
  | cons c first ih =>
    rw [List.cons_append, levels, levels, ih, List.cons_append, total_cons, add_assoc]

/-- Levels belong to events of the list. -/
lemma exists_of_mem_levels {x : Event × α} {changes : List (Change α)} :
    ∀ {level : α}, x ∈ levels level changes → ∃ c ∈ changes, c.event = x.1 := by
  induction changes with
  | nil => exact fun member => absurd member List.not_mem_nil
  | cons c rest ih =>
    intro level member
    rcases List.mem_cons.1 member with rfl | member
    · exact ⟨c, List.mem_cons_self, rfl⟩
    · obtain ⟨d, inside, same⟩ := ih member
      exact ⟨d, List.mem_cons_of_mem _ inside, same⟩

/-- The level after an event of an ordered list is the sum of the changes up to it. -/
lemma mem_levels {e : Event} {x : α} {changes : List (Change α)} :
    ∀ {level : α}, changes.Pairwise (fun c d => c.event < d.event) → ((e, x) ∈ levels level changes ↔
      (∃ c ∈ changes, c.event = e) ∧ x = level + total (changes.filter fun c => c.event ≤ e)) := by
  induction changes with
  | nil => exact fun _ => iff_of_false List.not_mem_nil fun ⟨⟨_, member, _⟩, _⟩ => nomatch member
  | cons c rest ih =>
    intro level sorted
    obtain ⟨after, sorted⟩ := List.pairwise_cons.1 sorted
    have head : total ((c :: rest).filter fun d => d.event ≤ c.event) = c.amount := by
      have none : rest.filter (fun d => d.event ≤ c.event) = [] :=
        List.filter_eq_nil_iff.2 fun d inside => by simpa using after d inside
      rw [List.filter_cons_of_pos (by simp), none, total_cons, total_nil, add_zero]
    have tail : c.event ≤ e → total ((c :: rest).filter fun d => d.event ≤ e) =
        c.amount + total (rest.filter fun d => d.event ≤ e) := fun before => by
      rw [List.filter_cons_of_pos (by simpa using before), total_cons]
    rw [levels, List.mem_cons, ih sorted]
    constructor
    · rintro (here | ⟨⟨d, inside, rfl⟩, rfl⟩)
      · obtain ⟨rfl, rfl⟩ := Prod.mk.inj here
        exact ⟨⟨c, List.mem_cons_self, rfl⟩, by rw [head]⟩
      · refine ⟨⟨d, List.mem_cons_of_mem _ inside, rfl⟩, ?_⟩
        rw [tail (after d inside).le, add_assoc]
    · rintro ⟨⟨d, inside, rfl⟩, rfl⟩
      rcases List.mem_cons.1 inside with rfl | inside
      · exact .inl (by rw [head])
      · refine .inr ⟨⟨d, inside, rfl⟩, ?_⟩
        rw [tail (after d inside).le, add_assoc]

/-- A sum over some changes is at most a sum over others if only the first one has falls that the other
one lacks, and only the other one has rises that the first one lacks. -/
lemma total_filter_le {P Q : Change α → Prop} [DecidablePred P] [DecidablePred Q]
    {changes : List (Change α)} (falls : ∀ c ∈ changes, P c → ¬Q c → c.amount ≤ 0)
    (rises : ∀ c ∈ changes, ¬P c → Q c → 0 ≤ c.amount) :
    total (changes.filter fun c => P c) ≤ total (changes.filter fun c => Q c) := by
  induction changes with
  | nil => exact le_refl _
  | cons c rest ih =>
    have le := ih (fun d inside => falls d (List.mem_cons_of_mem _ inside))
      fun d inside => rises d (List.mem_cons_of_mem _ inside)
    by_cases first : P c
    · rw [List.filter_cons_of_pos (by simpa using first), total_cons]
      by_cases second : Q c
      · rw [List.filter_cons_of_pos (by simpa using second), total_cons]
        exact add_le_add_right le c.amount
      · rw [List.filter_cons_of_neg (by simpa using second)]
        exact add_le_of_nonpos_of_le (falls c List.mem_cons_self first second) le
    · rw [List.filter_cons_of_neg (by simpa using first)]
      by_cases second : Q c
      · rw [List.filter_cons_of_pos (by simpa using second), total_cons]
        exact le_add_of_nonneg_of_le (rises c List.mem_cons_self first second) le
      · rwa [List.filter_cons_of_neg (by simpa using second)]

/-- The levels after those events that pass a test. -/
def levelsAt (test : Event → Prop) (level : α) (changes : List (Change α)) : Set α :=
  {x | ∃ e, (e, x) ∈ levels level changes ∧ test e}

variable {test : Event → Prop} {level a b : α} {c : Change α} {S T : Set α}

@[simp] lemma levelsAt_nil : levelsAt test level [] = ∅ := by
  refine Set.eq_empty_of_forall_notMem ?_
  rintro x ⟨e, member, -⟩
  exact absurd member List.not_mem_nil

/-- The levels of two lists in a row. -/
lemma levelsAt_append (first rest : List (Change α)) : levelsAt test level (first ++ rest) =
    levelsAt test level first ∪ levelsAt test (level + total first) rest := by
  ext x
  unfold levelsAt
  simp only [levels_append, List.mem_append, Set.mem_ofPred_eq, Set.mem_union]
  constructor
  · rintro ⟨e, inFirst | inRest, passed⟩
    · exact .inl ⟨e, inFirst, passed⟩
    · exact .inr ⟨e, inRest, passed⟩
  · rintro (⟨e, inFirst, passed⟩ | ⟨e, inRest, passed⟩)
    · exact ⟨e, .inl inFirst, passed⟩
    · exact ⟨e, .inr inRest, passed⟩

/-- The first level of a list counts if its event passes the test. -/
lemma levelsAt_cons_of_pos (rest : List (Change α)) (passed : test c.event) :
    levelsAt test level (c :: rest) =
      {level + c.amount} ∪ levelsAt test (level + c.amount) rest := by
  ext x
  unfold levelsAt
  simp only [levels, List.mem_cons, Set.mem_ofPred_eq, Set.mem_union, Set.mem_singleton_iff]
  constructor
  · rintro ⟨e, here | later, passed'⟩
    · exact .inl (Prod.mk.inj here).2
    · exact .inr ⟨e, later, passed'⟩
  · rintro (rfl | ⟨e, later, passed'⟩)
    · exact ⟨c.event, .inl rfl, passed⟩
    · exact ⟨e, .inr later, passed'⟩

/-- The first level of a list does not count if its event fails the test. -/
lemma levelsAt_cons_of_neg (rest : List (Change α)) (failed : ¬test c.event) :
    levelsAt test level (c :: rest) = levelsAt test (level + c.amount) rest := by
  ext x
  unfold levelsAt
  simp only [levels, List.mem_cons, Set.mem_ofPred_eq]
  constructor
  · rintro ⟨e, here | later, passed⟩
    · exact absurd ((Prod.mk.inj here).1 ▸ passed) failed
    · exact ⟨e, later, passed⟩
  · rintro ⟨e, later, passed⟩
    exact ⟨e, .inr later, passed⟩

/-- If no event passes the test, there is no level. -/
lemma levelsAt_eq_empty {changes : List (Change α)} (failed : ∀ c ∈ changes, ¬test c.event) :
    levelsAt test level changes = ∅ := by
  refine Set.eq_empty_of_forall_notMem ?_
  rintro x ⟨e, member, passed⟩
  obtain ⟨c, inside, rfl⟩ := exists_of_mem_levels member
  exact failed c inside passed

/-- Tests that agree on the events of a list select the same levels. -/
lemma levelsAt_congr (test' : Event → Prop) {changes : List (Change α)}
    (agree : ∀ c ∈ changes, test c.event ↔ test' c.event) :
    levelsAt test level changes = levelsAt test' level changes := by
  ext x
  constructor
  · rintro ⟨e, member, passed⟩
    obtain ⟨c, inside, rfl⟩ := exists_of_mem_levels member
    exact ⟨_, member, (agree c inside).1 passed⟩
  · rintro ⟨e, member, passed⟩
    obtain ⟨c, inside, rfl⟩ := exists_of_mem_levels member
    exact ⟨_, member, (agree c inside).2 passed⟩

/-! ## Highest levels -/

/-- The greatest number of a set, or none if the set is empty. -/
def IsHighest (S : Set α) : Option α → Prop
  | none => S = ∅
  | some x => IsGreatest S x

/-- The highest of two sets. -/
lemma IsHighest.union {x y : Option α} (hx : IsHighest S x) (hy : IsHighest T y) :
    IsHighest (S ∪ T) (Scalar.maxOption x y) := by
  cases x with
  | none =>
    obtain rfl : S = ∅ := hx
    rw [Set.empty_union]
    cases y with
    | none => exact hy
    | some y => exact hy
  | some x =>
    cases y with
    | none =>
      obtain rfl : T = ∅ := hy
      rw [Set.union_empty]
      exact hx
    | some y => exact IsGreatest.union hx hy

/-- The highest of a set and one more number. -/
lemma isGreatest_maxWith {x : Option α} (hx : IsHighest S x) (b : α) :
    IsGreatest (S ∪ {b}) (Scalar.maxWith x b) := by
  cases x with
  | none =>
    obtain rfl : S = ∅ := hx
    rw [Set.empty_union]
    exact isGreatest_singleton
  | some x => exact IsGreatest.union hx isGreatest_singleton

/-- All numbers may be raised before the highest is taken. -/
lemma add_maxWith (a b : α) (x : Option α) :
    a + Scalar.maxWith x b = Scalar.maxWith (x.map (a + ·)) (a + b) := by
  cases x with
  | none => rfl
  | some x => exact (max_add_add_left a x b).symm

/-- The least number of a set, or none if the set is empty. -/
def IsLowest (S : Set α) : Option α → Prop
  | none => S = ∅
  | some x => IsLeast S x

/-- The lowest of a set and one more number. -/
lemma isLeast_minWith {x : Option α} (hx : IsLowest S x) (b : α) :
    IsLeast (S ∪ {b}) (Scalar.minWith x b) := by
  cases x with
  | none =>
    obtain rfl : S = ∅ := hx
    rw [Set.empty_union]
    exact isLeast_singleton
  | some x => exact IsLeast.union hx isLeast_singleton

/-- All numbers may be raised before the lowest is taken. -/
lemma add_minWith (a b : α) (x : Option α) :
    a + Scalar.minWith x b = Scalar.minWith (x.map (a + ·)) (a + b) := by
  cases x with
  | none => rfl
  | some x => exact (min_add_add_left a x b).symm

/-! ## Summaries -/

/-- The summary is right for a list of changes. -/
structure Summary.Of (s : Summary α) (changes : List (Change α)) : Prop where
  sum : s.sum = total changes
  high : ∀ level, IsGreatest (levelsAt (fun _ => True) level changes) (level + s.high)
  low : ∀ level, IsLeast (levelsAt (fun _ => True) level changes) (level + s.low)
  first : ∀ c ∈ changes, s.first ≤ c.event
  last : ∀ c ∈ changes, c.event ≤ s.last

namespace EventTree

variable {t left right : EventTree α} {s : Summary α}

/-- The sum of the changes of a node. -/
lemma total_node (c : Change α) (s : Summary α) : total (node c s left right).toList =
    total left.toList + (c.amount + total right.toList) := by
  rw [toList, total_append, total_cons]

/-- The levels of a node are those of its subtrees and its own one. -/
lemma levelsAt_node (test : Event → Prop) (level : α) (c : Change α) (s : Summary α)
    (passed : test c.event) : levelsAt test level (node c s left right).toList =
      levelsAt test level left.toList ∪ {level + (total left.toList + c.amount)} ∪
        levelsAt test (level + (total left.toList + c.amount)) right.toList := by
  rw [toList, levelsAt_append, levelsAt_cons_of_pos _ passed, Set.union_assoc, ← add_assoc]

/-- The highest level up to the change of a node. -/
lemma isGreatest_upTo (sum : left.sum = total left.toList)
    (ofLeft : ∀ s ∈ left.summary?, s.Of left.toList) (amount level : α) :
    IsGreatest (levelsAt (fun _ => True) level left.toList ∪ {level + (total left.toList + amount)})
      (level + Scalar.maxWith (left.summary?.map Summary.high) (left.sum + amount)) := by
  rw [sum, add_maxWith]
  refine isGreatest_maxWith ?_ _
  cases left with
  | leaf => exact levelsAt_nil
  | node => exact (ofLeft _ rfl).high level

/-- The lowest level up to the change of a node. -/
lemma isLeast_upTo (sum : left.sum = total left.toList)
    (ofLeft : ∀ s ∈ left.summary?, s.Of left.toList) (amount level : α) :
    IsLeast (levelsAt (fun _ => True) level left.toList ∪ {level + (total left.toList + amount)})
      (level + Scalar.minWith (left.summary?.map Summary.low) (left.sum + amount)) := by
  rw [sum, add_minWith]
  refine isLeast_minWith ?_ _
  cases left with
  | leaf => exact levelsAt_nil
  | node => exact (ofLeft _ rfl).low level

/-- The first event of a node is that of its left subtree, or its own if there is none. -/
lemma first_le (ofLeft : ∀ s ∈ left.summary?, s.Of left.toList) (sorted : (node c s left right).Sorted) :
    ∀ d ∈ (node c s left right).toList,
      (left.summary?.map Summary.first).getD c.event ≤ d.event := by
  obtain ⟨-, inRight, across⟩ := List.pairwise_append.1 sorted
  obtain ⟨after, -⟩ := List.pairwise_cons.1 inRight
  have root : (left.summary?.map Summary.first).getD c.event ≤ c.event := by
    cases left with
    | leaf => exact le_refl c.event
    | node d s l r =>
      have inside : d ∈ (node d s l r).toList := List.mem_append_right _ List.mem_cons_self
      exact ((ofLeft _ rfl).first d inside).trans (across d inside c List.mem_cons_self).le
  intro d inside
  rcases List.mem_append.1 inside with inLeft | inside
  · cases left with
    | leaf => exact absurd inLeft List.not_mem_nil
    | node => exact (ofLeft _ rfl).first d inLeft
  · rcases List.mem_cons.1 inside with rfl | inRight
    · exact root
    · exact root.trans (after d inRight).le

/-- The last event of a node is that of its right subtree, or its own if there is none. -/
lemma le_last (ofRight : ∀ s ∈ right.summary?, s.Of right.toList)
    (sorted : (node c s left right).Sorted) : ∀ d ∈ (node c s left right).toList,
      d.event ≤ (right.summary?.map Summary.last).getD c.event := by
  obtain ⟨-, inRight, across⟩ := List.pairwise_append.1 sorted
  obtain ⟨after, -⟩ := List.pairwise_cons.1 inRight
  have root : c.event ≤ (right.summary?.map Summary.last).getD c.event := by
    cases right with
    | leaf => exact le_refl c.event
    | node d s l r =>
      have inside : d ∈ (node d s l r).toList := List.mem_append_right _ List.mem_cons_self
      exact (after d inside).le.trans ((ofRight _ rfl).last d inside)
  intro d inside
  rcases List.mem_append.1 inside with inLeft | inside
  · exact (across d inLeft c List.mem_cons_self).le.trans root
  · rcases List.mem_cons.1 inside with rfl | inRight
    · exact root
    · cases right with
      | leaf => exact absurd inRight List.not_mem_nil
      | node => exact (ofRight _ rfl).last d inRight

/-- The summary of a node is right if those of its subtrees are. -/
lemma of_over (sum : left.sum = total left.toList) (ofLeft : ∀ s ∈ left.summary?, s.Of left.toList)
    (ofRight : ∀ s ∈ right.summary?, s.Of right.toList) (sorted : (node c s left right).Sorted) :
    (Summary.over c left.summary? right.summary?).Of (node c s left right).toList := by
  have first := first_le ofLeft sorted
  have last := le_last ofRight sorted
  have high := isGreatest_upTo sum ofLeft c.amount
  have low := isLeast_upTo sum ofLeft c.amount
  cases right with
  | leaf =>
    have levels : ∀ level, levelsAt (fun _ => True) level (node c s left leaf).toList =
        levelsAt (fun _ => True) level left.toList ∪ {level + (total left.toList + c.amount)} := by
      intro level
      rw [levelsAt_node _ _ _ _ trivial, toList, levelsAt_nil, Set.union_empty]
    refine ⟨?_, fun level => levels level ▸ high level, fun level => levels level ▸ low level,
      first, last⟩
    rw [total_node, ← sum]
    exact congrArg (left.sum + ·) (add_zero c.amount).symm
  | node c' r l' r' =>
    have of := ofRight r rfl
    refine ⟨?_, fun level => ?_, fun level => ?_, first, last⟩
    · rw [total_node, ← sum, ← of.sum]
      exact add_assoc left.sum c.amount r.sum
    · rw [levelsAt_node _ _ _ _ trivial, ← sum]
      have both := (high level).union (of.high (level + (total left.toList + c.amount)))
      rwa [add_assoc, max_add_add_left, ← sum] at both
    · rw [levelsAt_node _ _ _ _ trivial, ← sum]
      have both := (low level).union (of.low (level + (total left.toList + c.amount)))
      rwa [add_assoc, min_add_add_left, ← sum] at both

/-- The summary of a shaped and sorted tree is right for its changes, and the sum of a tree is the sum
of its changes. -/
lemma Shaped.summary (shaped : t.Shaped) (sorted : t.Sorted) :
    t.sum = total t.toList ∧ ∀ s ∈ t.summary?, s.Of t.toList := by
  induction t with
  | leaf => exact ⟨rfl, fun s known => nomatch known⟩
  | node c own left right ihl ihr =>
    obtain ⟨same, -, -, shapedLeft, shapedRight⟩ := shaped
    obtain ⟨inLeft, inRight, -⟩ := List.pairwise_append.1 sorted
    obtain ⟨sumLeft, ofLeft⟩ := ihl shapedLeft inLeft
    obtain ⟨-, ofRight⟩ := ihr shapedRight (List.pairwise_cons.1 inRight).2
    have of := of_over sumLeft ofLeft ofRight sorted
    rw [← same] at of
    exact ⟨of.sum, fun s known => Option.some.inj known ▸ of⟩

/-! ## Questions -/

/-- The level before an event is the sum of the changes before it. -/
lemma levelBefore_eq (shaped : t.Shaped) (sorted : t.Sorted) (e : Event) :
    ∀ level : α, t.levelBefore e level = level + total (t.toList.filter fun c => c.event < e) := by
  induction t with
  | leaf => exact fun level => (add_zero level).symm
  | node c own left right ihl ihr =>
    obtain ⟨-, -, -, shapedLeft, shapedRight⟩ := shaped
    obtain ⟨inLeft, inRight, across⟩ := List.pairwise_append.1 sorted
    obtain ⟨after, inRight⟩ := List.pairwise_cons.1 inRight
    intro level
    unfold levelBefore
    split
    · rename_i passed
      have all : left.toList.filter (fun d => d.event < e) = left.toList :=
        List.filter_eq_self.2 fun d inside =>
          decide_eq_true ((across d inside c List.mem_cons_self).trans passed)
      rw [ihr shapedRight inRight, toList, List.filter_append, all,
        List.filter_cons_of_pos (by simpa using passed), (shapedLeft.summary inLeft).1, total_append,
        total_cons, add_assoc, add_assoc]
    · rename_i failed
      have none : right.toList.filter (fun d => d.event < e) = [] := by
        refine List.filter_eq_nil_iff.2 fun d inside => ?_
        rw [decide_eq_true_iff]
        exact not_lt.2 ((not_lt.1 failed).trans (after d inside).le)
      rw [ihl shapedLeft inLeft, toList, List.filter_append,
        List.filter_cons_of_neg (by simpa using failed), none, List.append_nil]

/-- The highest level after an event between two events. -/
lemma isHighest_highest (shaped : t.Shaped) (sorted : t.Sorted) (lo hi : Event) :
    ∀ level : α, IsHighest (levelsAt (fun e => lo ≤ e ∧ e < hi) level t.toList)
      (t.highest lo hi level) := by
  induction t with
  | leaf => exact fun level => levelsAt_nil
  | node c own left right ihl ihr =>
    have of := (shaped.summary sorted).2 own rfl
    obtain ⟨-, -, -, shapedLeft, shapedRight⟩ := shaped
    obtain ⟨inLeft, inRight, -⟩ := List.pairwise_append.1 sorted
    obtain ⟨-, inRight⟩ := List.pairwise_cons.1 inRight
    intro level
    unfold highest
    split
    · rename_i outside
      refine levelsAt_eq_empty fun d inside passed => ?_
      rcases outside with early | late
      · exact absurd ((of.last d inside).trans_lt early) (not_lt.2 passed.1)
      · exact absurd (late.trans (of.first d inside)) (not_le.2 passed.2)
    · split
      · rename_i within
        rw [levelsAt_congr (fun _ => True) fun d inside => iff_of_true
          ⟨within.1.trans (of.first d inside), (of.last d inside).trans_lt within.2⟩ trivial]
        exact of.high level
      · dsimp only
        have first := ihl shapedLeft inLeft level
        have rest := ihr shapedRight inRight (level + left.sum + c.amount)
        rw [(shapedLeft.summary inLeft).1] at rest ⊢
        rw [toList, levelsAt_append]
        split
        · rename_i passed
          rw [levelsAt_cons_of_pos _ passed, ← Set.union_assoc]
          exact IsHighest.union (x := some (Scalar.maxWith (left.highest lo hi level)
            (level + total left.toList + c.amount))) (isGreatest_maxWith first _) rest
        · rename_i failed
          rw [levelsAt_cons_of_neg _ failed]
          exact first.union rest

/-- A level is not as wanted if the summary says that none is. -/
lemma not_holds_of_isHopeless {wanted : Wanted} {threshold : α} {changes : List (Change α)}
    (of : s.Of changes) (hopeless : wanted.isHopeless threshold level s = true) {x : Event × α}
    (member : x ∈ levels level changes) : wanted.holds threshold x.2 = false := by
  have inside : x.2 ∈ levelsAt (fun _ => True) level changes := ⟨x.1, member, trivial⟩
  cases wanted with
  | reaching =>
    have low : level + s.high < threshold := of_decide_eq_true hopeless
    exact decide_eq_false (not_le.2 (((of.high level).2 inside).trans_lt low))
  | below =>
    have high : threshold ≤ level + s.low := of_decide_eq_true hopeless
    exact decide_eq_false (not_lt.2 (high.trans ((of.low level).2 inside)))

/-- The first event after which the level is as wanted. -/
lemma findFirst_eq (shaped : t.Shaped) (sorted : t.Sorted) (start : Event) (threshold : α)
    (wanted : Wanted) : ∀ level : α, t.findFirst start threshold wanted level =
      ((levels level t.toList).find? fun x =>
        decide (start ≤ x.1) && wanted.holds threshold x.2).map Prod.fst := by
  induction t with
  | leaf => exact fun level => rfl
  | node c own left right ihl ihr =>
    have of := (shaped.summary sorted).2 own rfl
    obtain ⟨-, -, -, shapedLeft, shapedRight⟩ := shaped
    obtain ⟨inLeft, inRight, -⟩ := List.pairwise_append.1 sorted
    obtain ⟨-, inRight⟩ := List.pairwise_cons.1 inRight
    intro level
    unfold findFirst
    split
    · rename_i early
      symm
      rw [Option.map_eq_none_iff, List.find?_eq_none]
      intro x member passed
      obtain ⟨d, inside, same⟩ := exists_of_mem_levels member
      have late := of_decide_eq_true (Bool.and_eq_true_iff.1 passed).1
      exact absurd ((of.last d inside).trans_lt early) (not_lt.2 (same ▸ late))
    · split
      · rename_i hopeless
        symm
        rw [Option.map_eq_none_iff, List.find?_eq_none]
        intro x member passed
        rw [not_holds_of_isHopeless of hopeless.2 member] at passed
        exact absurd (Bool.and_eq_true_iff.1 passed).2 Bool.false_ne_true
      · rw [toList, levels_append, List.find?_append, ihl shapedLeft inLeft level]
        cases (levels level left.toList).find? _ with
        | some x => rfl
        | none =>
          dsimp only [Option.map_none, Option.none_or]
          rw [(shapedLeft.summary inLeft).1, levels, ihr shapedRight inRight]
          by_cases here : start ≤ c.event ∧
              wanted.holds threshold (level + total left.toList + c.amount) = true
          · rw [if_pos here, List.find?_cons_of_pos (by simpa using here)]
            rfl
          · rw [if_neg here, List.find?_cons_of_neg (by simpa using here)]

end EventTree

end Leveling
