import Leveling.Proofs.Search.Searches

/-!
# The plans of a deletion search

At each stage a search considers the plan to delete the arcs that are marked then.  They can all be
deleted, and none of them occurs twice.  What the plan promises is the *gain* of the stage, by which
the bound of the root has moved in the search.

On the early side the plan of a stage has a cost, and the search ends with a plan that costs least.  On
the late side a plan counts only if it gains enough, and the search ends with one of these that has the
fewest arcs.  In both cases it is a best one of all stages, by some key, among those that count.
-/

namespace Leveling

open Checked Network

namespace DeletionSearch

variable {F : Frame} {net₀ net net' : Network} {b : Bounds} {side : Side} {top : Nat → Int}
  {safe : Prop} {s s' : DeletionSearch} {root n : Nat} {amount : Int}
  {x : DeletionSearch × Network} {S : Set (DeletionSearch × Network)}

/-! ## The marked arcs -/

/-- The marked ones of the listed arcs. -/
lemma onlyMarked_answers {refs : List ArcRef} (named : ∀ ref ∈ refs, ∃ a, net.arc ref = .ok a) :
    (onlyMarked net refs).Answers fun kept => kept.Sublist refs ∧
      ∀ ref, ref ∈ kept ↔ ref ∈ refs ∧ ∃ a, net.arc ref = .ok a ∧ a.marked = true := by
  induction refs with
  | nil => exact .ok ⟨.slnil, fun ref => by simp⟩
  | cons first rest ih =>
    obtain ⟨a, found⟩ := named first List.mem_cons_self
    unfold onlyMarked
    rw [found, ok_bind]
    refine (ih fun ref member => named ref (List.mem_cons_of_mem _ member)).bind
      fun kept ⟨sub, mem_kept⟩ => .pure ?_
    cases marked : a.marked with
    | true =>
      rw [if_pos rfl]
      refine ⟨sub.cons_cons first, fun ref => ?_⟩
      rw [List.mem_cons, List.mem_cons, mem_kept]
      constructor
      · rintro (rfl | ⟨member, isMarked⟩)
        · exact ⟨.inl rfl, a, found, marked⟩
        · exact ⟨.inr member, isMarked⟩
      · rintro ⟨rfl | member, isMarked⟩
        · exact .inl rfl
        · exact .inr ⟨member, isMarked⟩
    | false =>
      rw [if_neg Bool.false_ne_true]
      refine ⟨sub.cons first, fun ref => ?_⟩
      rw [mem_kept, List.mem_cons]
      constructor
      · rintro ⟨member, isMarked⟩
        exact ⟨.inr member, isMarked⟩
      · rintro ⟨rfl | member, b, found', isMarked⟩
        · rw [found] at found'
          cases found'
          rw [marked] at isMarked
          cases isMarked
        · exact ⟨member, b, found', isMarked⟩

/-- Distinct handles of all marked arcs are as many as there are marked arcs. -/
lemma length_of_marked {refs : List ArcRef} (distinct : refs.Nodup)
    (mem_refs : ∀ ref, ref ∈ refs ↔ ∃ a, net.arc ref = .ok a ∧ a.marked = true) :
    refs.length = markedCount net := by
  have perm : (refs.map ArcRef.place).Perm
      (((entries net.outgoing).filter fun e => e.2.2.marked).map placeOf) := by
    refine (List.perm_ext_iff_of_nodup (distinct.map_on fun ref h ref' h' same => ?_) ?_).2
      fun p => ?_
    · obtain ⟨a, found, -⟩ := (mem_refs ref).1 h
      obtain ⟨a', found', -⟩ := (mem_refs ref').1 h'
      rw [← refAt_place found, same, refAt_place found']
    · exact (nodup_places _).sublist (List.filter_sublist.map _)
    · simp only [List.mem_map, List.mem_filter]
      constructor
      · rintro ⟨ref, member, rfl⟩
        obtain ⟨a, found, marked⟩ := (mem_refs ref).1 member
        exact ⟨(ref.source, ref.slot, a), ⟨mem_entries.2 (arc_eq_ok.1 found).2, marked⟩, rfl⟩
      · rintro ⟨⟨v, i, a⟩, ⟨among, marked⟩, rfl⟩
        exact ⟨net.refAt (v, i), (mem_refs _).2 ⟨a, arc_refAt.2 (mem_entries.1 among), marked⟩, rfl⟩
  rw [← List.length_map ArcRef.place, perm.length_eq, List.length_map, ← List.countP_eq_length_filter]
  exact countP_entries (fun _ a => a.marked) net.outgoing

/-- The marked arcs are listed, each of them once. -/
lemma Marking.markedArcs (h : Marking side net s) :
    (s.markedArcs net).Answers fun refs => (refs.Nodup ∧
      ∀ ref, ref ∈ refs ↔ ∃ a, net.arc ref = .ok a ∧ a.marked = true) ∧
        refs.length = markedCount net := by
  have perm : (s.pruned ++ s.queue.map Prod.fst).Perm s.waitingArcs := List.perm_append_comm
  have named : ∀ ref ∈ s.pruned ++ s.queue.map Prod.fst, ∃ a, net.arc ref = .ok a := by
    intro ref member
    obtain ⟨a, found, -⟩ := h.named ref (List.mem_append_left _ (perm.mem_iff.1 member))
    exact ⟨a, found⟩
  have distinct : (s.pruned ++ s.queue.map Prod.fst).Nodup :=
    perm.nodup_iff.2 (h.distinct.sublist (List.sublist_append_left _ _))
  refine (onlyMarked_answers named).imp fun refs ⟨sub, mem_refs⟩ => ?_
  have mem_refs : ∀ ref, ref ∈ refs ↔ ∃ a, net.arc ref = .ok a ∧ a.marked = true := by
    refine fun ref => (mem_refs ref).trans (and_iff_right_of_imp ?_)
    rintro ⟨a, found, marked⟩
    have waiting := (h.marked (arc_eq_ok.1 found).2 marked).2
    rw [refAt_place found] at waiting
    exact perm.mem_iff.2 waiting
  exact ⟨⟨distinct.sublist sub, mem_refs⟩, length_of_marked (distinct.sublist sub) mem_refs⟩

/-- A plan deletes distinct arcs that may be deleted, and promises a time that is not negative. -/
structure Sane (net : Network) (plan : DeletionPlan) : Prop where
  distinct : plan.arcs.Nodup
  deletable : ∀ ref ∈ plan.arcs, net.Deletable ref
  nonneg : 0 ≤ plan.achieved
  le : plan.achieved ≤ greatestTime

/-- The plan to delete nothing is sane. -/
lemma sane_none (net : Network) : Sane net .none :=
  ⟨List.nodup_nil, fun _ member => absurd member List.not_mem_nil, Int.le_refl 0, by decide⟩

/-! ## Gains -/

/-- By how much the bound of the root has moved in a search. -/
def gain (F : Frame) (b : Bounds) (side : Side) (root : Nat) (s : DeletionSearch) : Int :=
  max (F.heights side (b.table side).value root - s.heightIn F b side root) 0

/-- The gain is computed. -/
lemma Searching.moved (ground : Ground safe F net₀ b side top)
    (h : Searching safe F net₀ b side top [] net s) (known : Visited s.visited root) :
    (s.moved b side root).AnswersIf safe fun achieved =>
      achieved = s.gain F b side root ∧ achieved ≤ greatestTime := by
  have hv := h.sized.lt_of_visited known
  have near : safe → leastTime ≤ F.heights side (b.table side).value root -
      F.heights side s.current root ∧ F.heights side (b.table side).value root -
        F.heights side s.current root ≤ greatestTime := fun isSafe => by
    have room := ground.room isSafe
    have spread := room.spread root
    have stored := room.value_above root
    have stored' := room.value_le root
    have current := h.within isSafe root known
    unfold leastTime
    unfold greatestTime at spread ⊢
    omega
  have positive : (0 : Int) ≤ greatestTime := by decide
  unfold DeletionSearch.moved gain
  rw [fetch_valueAt (lt_of_lt_of_eq hv ground.value_size.symm), ok_bind,
    fetch_valueAt (lt_of_lt_of_eq hv h.sized.current.symm), ok_bind, heightIn_of_visited known]
  cases side with
  | early =>
    refine (subTime_answersIf fun isSafe => ?_).bind fun d ⟨same, le⟩ => .pure ⟨?_, max_le le positive⟩
    · exact near isSafe
    · rw [same]
      rfl
  | late =>
    have turned : valueAt s.current root - valueAt (b.table .late).value root =
        F.heights .late (b.table .late).value root - F.heights .late s.current root := by
      dsimp only [Frame.heights, Frame.height]
      omega
    refine (subTime_answersIf fun isSafe => ?_).bind fun d ⟨same, le⟩ => .pure ⟨?_, max_le le positive⟩
    · rw [turned]
      exact near isSafe
    · rw [same, turned]

/-- No more arcs are marked than there are. -/
lemma Searching.removed_le (ground : Ground safe F net₀ b side top)
    (h : Searching safe F net₀ b side top [] net s) : s.removed ≤ net₀.size := by
  have linked := (ground.alike h.alike).linked
  rw [← h.alike.size ground.linked, linked.size_eq, ← linked.arcs, h.marking.removed]
  unfold markedCount
  rw [← countP_entries, ← length_entries]
  exact List.countP_le_length

/-- The cost of missing an amount is a counter: a fine for all of it, and all arcs of the network. -/
def Affordable (net : Network) (penalty : Nat) (amount : Int) : Prop :=
  penalty * amount.toNat + net.size < 18446744073709551616

/-- The cost of the marked arcs is computed. -/
lemma Searching.score (ground : Ground safe F net₀ b side top)
    (h : Searching safe F net₀ b side top [] net s) {achieved : Int} (nonneg : 0 ≤ achieved)
    (le : achieved ≤ greatestTime) (positive : 0 < amount)
    (affordable : safe → Affordable net₀ s.penalty amount ∧ amount ≤ greatestTime) :
    (s.score amount achieved).AnswersIf safe fun cost =>
      cost = s.removed + s.penalty * (amount - achieved).toNat := by
  have marked := h.removed_le ground
  have fined : s.penalty * (amount - achieved).toNat ≤ s.penalty * amount.toNat :=
    Nat.mul_le_mul_left _ (by omega)
  have counter : ∀ {k : Nat}, (safe → k < 18446744073709551616) →
      (asCount k).AnswersIf safe fun k' => k' = k := fun small =>
    .of_eq_or (asCount_eq_or _) (fun isSafe => if_pos (small isSafe)) rfl
  unfold DeletionSearch.score
  refine (subTime_answersIf fun isSafe => ?_).bind fun shortfall ⟨same, _⟩ => ?_
  · have amount_le := (affordable isSafe).2
    unfold leastTime
    unfold greatestTime at *
    omega
  · rw [same]
    refine (counter fun isSafe => ?_).bind fun fine same' => ?_
    · have small := (affordable isSafe).1
      unfold Affordable at small
      omega
    · rw [same']
      refine counter fun isSafe => ?_
      have small := (affordable isSafe).1
      unfold Affordable at small
      omega

/-! ## The plan of a stage -/

/-- A stage at which a plan was considered. -/
structure Considered (safe : Prop) (F : Frame) (net₀ : Network) (b : Bounds) (side : Side)
    (top : Nat → Int) (root penalty : Nat) (x : DeletionSearch × Network) : Prop where
  searching : Searching safe F net₀ b side top [] x.2 x.1
  known : Visited x.1.visited root
  penalty : x.1.penalty = penalty
  moved : x.1.moved b side root = .ok (x.1.gain F b side root)

/-- A plan was made at a stage: to delete the arcs that are marked there, which promises the gain. -/
structure Drawn (F : Frame) (net₀ : Network) (b : Bounds) (side : Side) (root : Nat)
    (x : DeletionSearch × Network) (plan : DeletionPlan) : Prop where
  sane : Sane net₀ plan
  achieved : plan.achieved = x.1.gain F b side root
  marked : ∀ ref, ref ∈ plan.arcs ↔ ∃ a, x.2.arc ref = .ok a ∧ a.marked = true
  length : plan.arcs.length = markedCount x.2

/-- The plan of a stage. -/
lemma Searching.plan (h : Searching safe F net₀ b side top [] net s) {achieved : Int}
    (same : achieved = s.gain F b side root) (le : achieved ≤ greatestTime) :
    (s.plan net achieved).Answers (Drawn F net₀ b side root (s, net)) := by
  unfold DeletionSearch.plan
  refine h.marking.markedArcs.bind fun refs ⟨⟨distinct, mem_refs⟩, length⟩ => .pure
    ⟨⟨distinct, fun ref member => ?_, same ▸ le_max_right _ _, le⟩, same, mem_refs, length⟩
  obtain ⟨a, found, marked⟩ := (mem_refs ref).1 member
  have temporary := (h.marking.marked (arc_eq_ok.1 found).2 marked).1
  obtain ⟨a₀, found₀, bare⟩ := h.alike.symm.arc found
  have permanent : a₀.bare.permanent = a.bare.permanent := congrArg Arc.permanent bare
  exact ⟨a₀, found₀, permanent.trans temporary⟩

/-- The best plan of some stages is that of a stage that counts, with the least key of those that
count.  There is none if no stage counts. -/
def Chosen (F : Frame) (net₀ : Network) (b : Bounds) (side : Side) (root : Nat)
    (counts : DeletionSearch × Network → Prop) (key : DeletionSearch × Network → Nat)
    (S : Set (DeletionSearch × Network)) : Option (Nat × DeletionPlan) → Prop
  | none => ∀ x ∈ S, ¬counts x
  | some (least, plan) => ∃ x ∈ S, counts x ∧ Drawn F net₀ b side root x plan ∧ key x = least ∧
      ∀ y ∈ S, counts y → least ≤ key y

section

variable {counts : DeletionSearch × Network → Prop} {key : DeletionSearch × Network → Nat}
  {best : Option (Nat × DeletionPlan)}

/-- A stage that counts and has no larger key than the best one becomes the best one. -/
lemma Chosen.take {plan : DeletionPlan} (fine : Chosen F net₀ b side root counts key S best)
    (eligible : counts x) (drawn : Drawn F net₀ b side root x plan)
    (better : ∀ least plan, best = some (least, plan) → key x ≤ least) :
    Chosen F net₀ b side root counts key (insert x S) (some (key x, plan)) := by
  refine ⟨x, Set.mem_insert _ _, eligible, drawn, rfl, fun y member eligible' => ?_⟩
  obtain rfl | old := Set.mem_insert_iff.1 member
  · exact Nat.le_refl _
  · cases best with
    | none => exact absurd eligible' (fine y old)
    | some found =>
      obtain ⟨least, plan'⟩ := found
      obtain ⟨-, -, -, -, -, lower⟩ := fine
      exact (better least plan' rfl).trans (lower y old eligible')

/-- A stage that does not count, or that has no smaller key than the best one, changes nothing. -/
lemma Chosen.leave (fine : Chosen F net₀ b side root counts key S best)
    (worse : counts x → ∃ least plan, best = some (least, plan) ∧ least ≤ key x) :
    Chosen F net₀ b side root counts key (insert x S) best := by
  cases best with
  | none =>
    intro y member eligible
    obtain rfl | old := Set.mem_insert_iff.1 member
    · obtain ⟨_, _, impossible, -⟩ := worse eligible
      cases impossible
    · exact fine y old eligible
  | some found =>
    obtain ⟨least, plan'⟩ := found
    obtain ⟨z, among, eligible, drawn, same, lower⟩ := fine
    refine ⟨z, Set.mem_insert_of_mem _ among, eligible, drawn, same, fun y member eligible' => ?_⟩
    obtain rfl | old := Set.mem_insert_iff.1 member
    · obtain ⟨_, _, same', le⟩ := worse eligible'
      cases same'
      exact le
    · exact lower y old eligible'

end

/-- All stages so far were considered, and the best plan is known. -/
def FineBest (safe : Prop) (F : Frame) (net₀ : Network) (b : Bounds) (side : Side) (top : Nat → Int)
    (root penalty : Nat) (counts : DeletionSearch × Network → Prop)
    (key : DeletionSearch × Network → Nat) (S : Set (DeletionSearch × Network))
    (best : Option (Nat × DeletionPlan)) : Prop :=
  (∀ x ∈ S, Considered safe F net₀ b side top root penalty x) ∧
    Chosen F net₀ b side root counts key S best

/-- Before the first stage there is no best plan. -/
lemma fineBest_none {penalty : Nat} {counts : DeletionSearch × Network → Prop}
    {key : DeletionSearch × Network → Nat} :
    FineBest safe F net₀ b side top root penalty counts key ∅ none :=
  ⟨fun x impossible => absurd impossible (Set.notMem_empty x),
    fun x impossible => absurd impossible (Set.notMem_empty x)⟩

section

variable {penalty : Nat} {counts : DeletionSearch × Network → Prop}
  {key : DeletionSearch × Network → Nat} {best : Option (Nat × DeletionPlan)}
  (fine : FineBest safe F net₀ b side top root penalty counts key S best)

include fine

/-- One more stage is considered, and it changes nothing. -/
lemma FineBest.leave (here : Considered safe F net₀ b side top root penalty x)
    (worse : counts x → ∃ least plan, best = some (least, plan) ∧ least ≤ key x) :
    FineBest safe F net₀ b side top root penalty counts key (insert x S) best :=
  ⟨Set.forall_mem_insert.2 ⟨here, fine.1⟩, fine.2.leave worse⟩

/-- One more stage is considered, and its plan becomes the best one. -/
lemma FineBest.present (here : Considered safe F net₀ b side top root penalty (s, net))
    {achieved : Int} (same : achieved = s.gain F b side root) (le : achieved ≤ greatestTime)
    (eligible : counts (s, net)) {k : Nat} (same_key : k = key (s, net))
    (better : ∀ least plan, best = some (least, plan) → k ≤ least) :
    (do return some (k, ← s.plan net achieved) : Checked (Option (Nat × DeletionPlan))).AnswersIf
      safe (FineBest safe F net₀ b side top root penalty counts key (insert (s, net) S)) := by
  refine (here.searching.plan same le).answersIf.bind fun plan drawn => .pure
    ⟨Set.forall_mem_insert.2 ⟨here, fine.1⟩, ?_⟩
  rw [same_key] at better ⊢
  exact fine.2.take eligible drawn better

end

/-- The cost of the plan of a stage: one for each arc, and the penalty for each time step that the root
falls short of the amount. -/
def costOf (F : Frame) (b : Bounds) (root : Nat) (amount : Int) (x : DeletionSearch × Network) : Nat :=
  markedCount x.2 + x.1.penalty * (amount - x.1.gain F b .early root).toNat

/-- The plan of a stage reaches the amount. -/
def Reaches (F : Frame) (b : Bounds) (root : Nat) (amount : Int) (x : DeletionSearch × Network) :
    Prop := amount ≤ x.1.gain F b .late root

/-- A plan of the early side is considered: the cheapest one is kept. -/
lemma Searching.considerEarly {penalty : Nat} (ground : Ground safe F net₀ b .early top)
    (h : Searching safe F net₀ b .early top [] net s) (known : Visited s.visited root)
    (same_penalty : s.penalty = penalty) (positive : 0 < amount)
    (affordable : safe → Affordable net₀ s.penalty amount ∧ amount ≤ greatestTime)
    {best : Option (Nat × DeletionPlan)}
    (fine : FineBest safe F net₀ b .early top root penalty (fun _ => True) (costOf F b root amount) S
      best) :
    (DeletionSearch.considerEarly b root amount s net best).AnswersIf safe
      (FineBest safe F net₀ b .early top root penalty (fun _ => True) (costOf F b root amount)
        (insert (s, net) S)) := by
  unfold DeletionSearch.considerEarly
  refine ((h.moved ground known).and_ensures Ensures.same).bind
    fun achieved ⟨⟨same, le⟩, answer⟩ => ?_
  have nonneg : 0 ≤ achieved := same ▸ le_max_right _ _
  have here : Considered safe F net₀ b .early top root penalty (s, net) :=
    ⟨h, known, same_penalty, same ▸ answer⟩
  refine (h.score ground nonneg le positive affordable).bind fun cost same_cost => ?_
  have cost_eq : cost = costOf F b root amount (s, net) := by
    rw [same_cost, h.marking.removed, same]
    rfl
  cases best with
  | none => exact fine.present here same le trivial cost_eq fun _ _ impossible => nomatch impossible
  | some old =>
    obtain ⟨least, plan⟩ := old
    dsimp only
    split
    · rename_i less
      refine fine.present here same le trivial cost_eq fun _ _ same => ?_
      cases same
      exact Nat.le_of_lt less
    · rename_i notLess
      exact .pure (fine.leave here fun _ => ⟨least, plan, rfl, cost_eq ▸ Nat.not_lt.1 notLess⟩)

/-- A plan of the late side is considered: of those that reach the amount, one with the fewest arcs is
kept. -/
lemma Searching.considerLate {penalty : Nat} (ground : Ground safe F net₀ b .late top)
    (h : Searching safe F net₀ b .late top [] net s) (known : Visited s.visited root)
    (same_penalty : s.penalty = penalty) {best : Option (Nat × DeletionPlan)}
    (fine : FineBest safe F net₀ b .late top root penalty (Reaches F b root amount)
      (fun x => markedCount x.2) S best) :
    (DeletionSearch.considerLate b root amount s net best).AnswersIf safe
      (FineBest safe F net₀ b .late top root penalty (Reaches F b root amount)
        (fun x => markedCount x.2) (insert (s, net) S)) := by
  unfold DeletionSearch.considerLate
  refine ((h.moved ground known).and_ensures Ensures.same).bind
    fun achieved ⟨⟨same, le⟩, answer⟩ => ?_
  have here : Considered safe F net₀ b .late top root penalty (s, net) :=
    ⟨h, known, same_penalty, same ▸ answer⟩
  have reaches : amount ≤ achieved ↔ Reaches F b root amount (s, net) := by
    rw [same]
    rfl
  cases best with
  | none =>
    dsimp only
    split
    · rename_i both
      exact fine.present here same le (reaches.1 both.1) h.marking.removed
        fun _ _ impossible => nomatch impossible
    · rename_i neither
      refine .pure (fine.leave here fun reached => ?_)
      exact absurd ⟨reaches.2 reached, rfl⟩ neither
  | some old =>
    obtain ⟨least, plan⟩ := old
    dsimp only
    split
    · rename_i both
      refine fine.present here same le (reaches.1 both.1) h.marking.removed fun _ _ same => ?_
      cases same
      exact Nat.le_of_lt (of_decide_eq_true both.2)
    · rename_i neither
      refine .pure (fine.leave here fun reached => ⟨least, plan, rfl, ?_⟩)
      dsimp only
      rw [← h.marking.removed]
      exact Nat.not_lt.1 fun less => neither ⟨reaches.2 reached, decide_eq_true less⟩

/-! ## The two searches -/

/-- What is left of a search: the network as it was, and a state for the next search. -/
structure Left (n : Nat) (s : DeletionSearch) (net : Network) (s' : DeletionSearch)
    (net' : Network) : Prop where
  network : net' = net
  sized : s'.Sized n
  maxDepth : s'.maxDepth = s.maxDepth
  penalty : s'.penalty = s.penalty

/-- If there is nothing to search for, everything is left as it was. -/
lemma Sized.left (sized : s.Sized n) (net : Network) : Left n s net s net :=
  ⟨rfl, sized, rfl, rfl⟩

/-- What the search of the early side ends with: the plan to delete nothing if nothing can be gained, and
otherwise a cheapest plan of all stages. -/
inductive Cheapest (safe : Prop) (F : Frame) (net : Network) (b : Bounds) (top : Nat → Int)
    (root : Nat) (amount : Int) (s : DeletionSearch) : DeletionPlan → Prop
  | nothing : amount ≤ 0 ∨ valueAt b.early.value root = valueAt b.early.base root →
      Cheapest safe F net b top root amount s .none
  | found {x : DeletionSearch × Network} {plan : DeletionPlan} : 0 < amount →
      valueAt b.early.value root ≠ valueAt b.early.base root →
      (∀ y, s.Stage net b .early root y →
        Considered safe F net b .early top root s.penalty y) →
      s.Stage net b .early root x → Drawn F net b .early root x plan →
      (∀ y, s.Stage net b .early root y → costOf F b root amount x ≤ costOf F b root amount y) →
      Cheapest safe F net b top root amount s plan

/-- What the search of the late side ends with: the plan to delete nothing if nothing is asked for, and
otherwise a plan with the fewest arcs of all stages that reach the amount, if there are any. -/
inductive Fewest (safe : Prop) (F : Frame) (net : Network) (b : Bounds) (top : Nat → Int)
    (root : Nat) (amount : Int) (s : DeletionSearch) : Option DeletionPlan → Prop
  | nothing : amount ≤ 0 → Fewest safe F net b top root amount s (some .none)
  | loose : 0 < amount → valueAt b.late.value root = valueAt b.late.base root →
      Fewest safe F net b top root amount s none
  | missed : 0 < amount →
      (∀ y, s.Stage net b .late root y → Considered safe F net b .late top root s.penalty y) →
      (∀ y, s.Stage net b .late root y → ¬Reaches F b root amount y) →
      Fewest safe F net b top root amount s none
  | found {x : DeletionSearch × Network} {plan : DeletionPlan} : 0 < amount →
      (∀ y, s.Stage net b .late root y → Considered safe F net b .late top root s.penalty y) →
      s.Stage net b .late root x → Drawn F net b .late root x plan → Reaches F b root amount x →
      (∀ y, s.Stage net b .late root y → Reaches F b root amount y →
        markedCount x.2 ≤ markedCount y.2) →
      Fewest safe F net b top root amount s (some plan)

/-- A search of the early side. -/
lemma backward_answers (ground : Ground safe F net b .early top) (clean : net.flagged = 0)
    (sized : s.Sized F.size) (hv : root < F.size)
    (affordable : safe → Affordable net s.penalty amount ∧ amount ≤ greatestTime) :
    (s.backward net b root amount).AnswersIf safe fun r =>
      Cheapest safe F net b top root amount s r.1 ∧ Left F.size s net r.2.1 r.2.2 := by
  have stored : fetch b.early.value root = .ok (valueAt b.early.value root) :=
    fetch_valueAt (lt_of_lt_of_eq hv ground.value_size.symm)
  have base : fetch b.early.base root = .ok (valueAt b.early.base root) :=
    fetch_valueAt (lt_of_lt_of_eq hv ground.base_size.symm)
  unfold backward Bounds.earliestStart
  split
  · rename_i nothing
    exact .pure ⟨.nothing (.inl nothing), sized.left net⟩
  · rename_i positive
    rw [stored, ok_bind, base, ok_bind]
    split
    · rename_i same
      exact .pure ⟨.nothing (.inr same), sized.left net⟩
    · rename_i apart
      refine (run_answers (FineBest safe F net b .early top root s.penalty (fun _ => True)
        (costOf F b root amount)) ground clean sized hv fineBest_none
        fun h known penalty fine => h.considerEarly ground known penalty (Int.not_le.1 positive)
          (penalty ▸ affordable) fine).bind ?_
      rintro ⟨best, s', net'⟩ ⟨⟨considered, chosen⟩, ⟨y, stage⟩, network, sized', maxDepth, penalty⟩
      refine .pure ⟨?_, network, sized', maxDepth, penalty⟩
      cases best with
      | none => exact absurd trivial (chosen y stage)
      | some found =>
        obtain ⟨cost, plan⟩ := found
        obtain ⟨x, stage, -, drawn, rfl, least⟩ := chosen
        exact .found (Int.not_le.1 positive) apart considered stage drawn
          fun y stage => least y stage trivial

/-- A search of the late side. -/
lemma forward_answers (ground : Ground safe F net b .late top) (clean : net.flagged = 0)
    (sized : s.Sized F.size) (hv : root < F.size) :
    (s.forward net b root amount).AnswersIf safe fun r =>
      Fewest safe F net b top root amount s r.1 ∧ Left F.size s net r.2.1 r.2.2 := by
  have stored : fetch b.late.value root = .ok (valueAt b.late.value root) :=
    fetch_valueAt (lt_of_lt_of_eq hv ground.value_size.symm)
  have base : fetch b.late.base root = .ok (valueAt b.late.base root) :=
    fetch_valueAt (lt_of_lt_of_eq hv ground.base_size.symm)
  unfold forward Bounds.latestFinish
  split
  · rename_i nothing
    exact .pure ⟨.nothing nothing, sized.left net⟩
  · rename_i positive
    rw [stored, ok_bind, base, ok_bind]
    split
    · rename_i same
      exact .pure ⟨.loose (Int.not_le.1 positive) same, sized.left net⟩
    · refine (run_answers (FineBest safe F net b .late top root s.penalty (Reaches F b root amount)
        fun x => markedCount x.2) ground clean sized hv fineBest_none
        fun h known penalty fine => h.considerLate ground known penalty fine).bind ?_
      rintro ⟨best, s', net'⟩ ⟨⟨considered, chosen⟩, -, network, sized', maxDepth, penalty⟩
      refine .pure ⟨?_, network, sized', maxDepth, penalty⟩
      cases best with
      | none => exact .missed (Int.not_le.1 positive) considered chosen
      | some found =>
        obtain ⟨count, plan⟩ := found
        obtain ⟨x, stage, reached, drawn, rfl, least⟩ := chosen
        exact .found (Int.not_le.1 positive) considered stage drawn reached least

/-- The plan of the early side is sane. -/
lemma Cheapest.sane {plan : DeletionPlan} (h : Cheapest safe F net b top root amount s plan) :
    Sane net plan := by
  cases h with
  | nothing => exact sane_none net
  | found _ _ _ _ drawn => exact drawn.sane

/-- A plan of the late side is sane. -/
lemma Fewest.sane {plan : DeletionPlan}
    (h : Fewest safe F net b top root amount s (some plan)) : Sane net plan := by
  cases h with
  | nothing => exact sane_none net
  | found _ _ _ drawn => exact drawn.sane

end DeletionSearch

end Leveling
