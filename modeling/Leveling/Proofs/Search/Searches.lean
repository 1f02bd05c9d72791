import Leveling.Proofs.Search.Steps

/-!
# Deletion searches

A deletion search comes to one *stage* after the other: at first the arcs at the root are marked, and
each step leads to the next stage.  It considers a plan at every stage and at nothing else.  Every
step but the last one sees another arc, so there are enough rounds for all of them.  In the end the
network is as it was.
-/

namespace Leveling

open Checked Network

namespace Network

/-- Networks that are alike have the same size. -/
lemma Alike.size {net net' : Network} (alike : Alike net net') (linked : net.Linked) :
    net'.size = net.size := by
  have count : net'.bare.arcCount = net.bare.arcCount := by rw [alike]
  rw [linked.size_eq, (alike.linked linked).size_eq]
  exact count

end Network

namespace DeletionSearch

variable {F : Frame} {net₀ net net' : Network} {b : Bounds} {side : Side} {top : Nat → Int}
  {safe : Prop} {s s' : DeletionSearch} {root n : Nat}

/-! ## The beginning of a search -/

/-- The listed jobs are forgotten. -/
lemma forget_answers {touched : List Nat} :
    ∀ {xs : Array Bool}, (∀ v ∈ touched, v < xs.size) →
      (touched.foldlM (fun xs v => store xs v false) xs).Answers fun ys =>
        ys.size = xs.size ∧ ∀ v, Visited ys v → Visited xs v ∧ v ∉ touched := by
  induction touched with
  | nil => exact fun _ => .pure ⟨rfl, fun v known => ⟨known, List.not_mem_nil⟩⟩
  | cons w rest ih =>
    intro xs inside
    have hw := inside w List.mem_cons_self
    rw [List.foldlM_cons, store_of_lt _ hw, ok_bind]
    have rest_inside : ∀ v ∈ rest, v < (xs.set w false hw).size := fun v member => by
      rw [Array.size_set]
      exact inside v (List.mem_cons_of_mem _ member)
    refine (ih rest_inside).imp fun ys ⟨size, known⟩ => ⟨?_, fun v isKnown => ?_⟩
    · rw [size, Array.size_set]
    · obtain ⟨before, fresh⟩ := known v isKnown
      unfold Visited at before ⊢
      rw [Array.getElem?_set] at before
      split at before
      · cases before
      · rename_i other
        refine ⟨before, fun member => ?_⟩
        rcases List.mem_cons.1 member with same | member
        · exact other same.symm
        · exact fresh member

/-- What is known at the beginning of a search: only the root is visited. -/
structure Started (n root : Nat) (bound : Int) (s s' : DeletionSearch) : Prop where
  sized : s'.Sized n
  visited : ∀ {x}, Visited s'.visited x ↔ x = root
  expanded : ∀ x, ¬Visited s'.expanded x
  current : valueAt s'.current root = bound
  touched : s'.touched = [root]
  listed : s'.listedArcs = []
  removed : s'.removed = 0
  maxDepth : s'.maxDepth = s.maxDepth
  penalty : s'.penalty = s.penalty

/-- A search begins. -/
lemma Sized.start (sized : s.Sized n) (hv : root < n) (bound : Int) :
    (s.start root bound).Answers (Started n root bound s) := by
  have inside : ∀ v ∈ s.touched, v < s.visited.size := fun v member =>
    lt_of_lt_of_eq (sized.touched_lt v member) sized.visited.symm
  have inside' : ∀ v ∈ s.touched, v < s.expanded.size := fun v member =>
    lt_of_lt_of_eq (sized.touched_lt v member) sized.expanded.symm
  unfold DeletionSearch.start
  refine (forget_answers inside).bind fun visited ⟨size, known⟩ => ?_
  refine (forget_answers inside').bind fun expanded ⟨size', known'⟩ => ?_
  have none_visited : ∀ v, ¬Visited visited v := fun v isKnown =>
    (known v isKnown).2 (sized.touched v (.inl (known v isKnown).1))
  have none_expanded : ∀ v, ¬Visited expanded v := fun v isKnown =>
    (known' v isKnown).2 (sized.touched v (.inr (known' v isKnown).1))
  have cleared : Sized n { s with
      visited, expanded, touched := [], queue := [], pruned := [], seenArcs := [], removed := 0 } :=
    ⟨size.trans sized.visited, size'.trans sized.expanded, sized.current,
      fun v member => absurd member List.not_mem_nil,
      fun v isKnown => (isKnown.elim (none_visited v) (none_expanded v)).elim⟩
  refine (cleared.visit hv bound).imp fun s' met => ⟨met.sized, fun {x} => ?_, fun x isKnown => ?_,
    ?_, met.touched.resolve_left (none_visited root), ?_, ?_, met.later.maxDepth, met.later.penalty⟩
  · exact met.visited.trans (or_iff_left (none_visited x))
  · rw [met.same] at isKnown
    exact none_expanded x isKnown
  · rw [met.current, if_pos ⟨rfl, none_visited root⟩]
  · rw [met.same]
    rfl
  · rw [met.same]

/-- At the beginning of a search the books are in order. -/
lemma Started.marking {bound : Int} (started : Started n root bound s s') (clean : net₀.flagged = 0) :
    Marking side net₀ s' := by
  have flags := flagged_eq_zero.1 clean
  refine ⟨?_, ?_, fun {p a} entry marked => ?_, fun {p a} entry seen => ?_, ?_,
    fun v known => absurd known (started.expanded v)⟩
  · rw [started.listed]
    exact fun ref member => absurd member List.not_mem_nil
  · rw [started.listed]
    exact List.nodup_nil
  · rw [(flags p a entry).1] at marked
    cases marked
  · rw [(flags p a entry).2] at seen
    cases seen
  · rw [started.removed]
    refine (Nat.le_zero.1 ?_).symm
    rw [← clean]
    unfold markedCount flagged
    rw [← countP_entries, ← countP_entries]
    exact List.countP_mono_left fun e _ marked => by simp [marked]

/-- At the beginning of a search only the root has to be looked at. -/
lemma Started.searching (started : Started F.size root (valueAt (b.table side).base root) s s')
    (ground : Ground safe F net₀ b side top) (clean : net₀.flagged = 0) :
    Searching safe F net₀ b side top [root] net₀ s' := by
  refine ⟨rfl, started.sized, fun isSafe v known => ?_, started.marking clean,
    fun v known fresh => absurd (List.mem_singleton.2 (started.visited.1 known)) fresh⟩
  obtain rfl := started.visited.1 known
  unfold Frame.heights
  rw [started.current]
  exact ⟨(ground.room isSafe).base_above v, (ground.room isSafe).base_le v⟩

/-! ## Stages -/

/-- The first stage of a search, in which the arcs at the root are marked. -/
def cut (s : DeletionSearch) (net : Network) (b : Bounds) (side : Side) (root : Nat) :
    Checked (DeletionSearch × Network) := do
  let s ← s.start root (← fetch (b.table side).base root)
  let (s, net) ← s.expand net b side root 0
  let s ← s.update net b side root
  return (s, net)

/-- The stages of a search: the first one, and what the steps make of it. -/
inductive Stage (s : DeletionSearch) (net : Network) (b : Bounds) (side : Side) (root : Nat) :
    DeletionSearch × Network → Prop
  | cut {x : DeletionSearch × Network} : s.cut net b side root = .ok x → Stage s net b side root x
  | step {x : DeletionSearch × Network} {s' : DeletionSearch} {net' : Network} :
      Stage s net b side root x → x.1.step x.2 b side = .ok (s', some net') →
        Stage s net b side root (s', net')

/-- A whole search begins with its first stage. -/
lemma run_eq (consider : Rule) : s.run net b side root consider = (do
    let (s, net) ← s.cut net b side root
    let best ← consider s net none
    let (s, net, best) ← explore b side consider (net.size + 1) s net best
    let (s, net) ← s.finish net
    return (best, s, net)) := by
  unfold run cut
  simp only [bind_assoc, pure_bind]

/-- At the first stage no job is pending. -/
lemma cut_answers (ground : Ground safe F net₀ b side top) (clean : net₀.flagged = 0)
    (sized : s.Sized F.size) (hv : root < F.size) :
    (s.cut net₀ b side root).AnswersIf safe fun x => Searching safe F net₀ b side top [] x.2 x.1 ∧
      Visited x.1.visited root ∧ x.1.maxDepth = s.maxDepth ∧ x.1.penalty = s.penalty := by
  unfold cut
  rw [fetch_valueAt (lt_of_lt_of_eq hv ground.base_size.symm), ok_bind]
  refine (sized.start hv _).answersIf.bind fun s₁ started => ?_
  have h₁ := started.searching ground clean
  have known : Visited s₁.visited root := started.visited.2 rfl
  refine (h₁.expand ground known (started.expanded root) 0).answersIf.bind ?_
  rintro ⟨s₂, net₂⟩ ⟨h₂, later, -⟩
  refine (h₂.update ground (later.visited root known) fun x member =>
    List.mem_singleton.1 member).bind fun s₃ ⟨h₃, settled⟩ => .pure ⟨h₃, ?_, ?_, ?_⟩
  · dsimp only
    rw [settled.same]
    exact later.visited root known
  · dsimp only
    rw [settled.same]
    exact later.maxDepth.trans started.maxDepth
  · dsimp only
    rw [settled.same]
    exact later.penalty.trans started.penalty

/-- What holds at every stage of a search. -/
lemma Stage.searching {x : DeletionSearch × Network} (ground : Ground safe F net₀ b side top)
    (clean : net₀.flagged = 0) (sized : s.Sized F.size) (hv : root < F.size)
    (stage : s.Stage net₀ b side root x) : Searching safe F net₀ b side top [] x.2 x.1 ∧
      Visited x.1.visited root ∧ x.1.maxDepth = s.maxDepth ∧ x.1.penalty = s.penalty := by
  induction stage with
  | cut first => exact (cut_answers ground clean sized hv).ensures _ first
  | step _ stepped ih =>
    obtain ⟨h, known, maxDepth, penalty⟩ := ih
    obtain ⟨later, h', -⟩ := (h.step ground).ensures _ stepped
    exact ⟨h', later.visited root known, later.maxDepth.trans maxDepth,
      later.penalty.trans penalty⟩

/-- The stages up to the present one `x`. -/
structure Passed (s : DeletionSearch) (net : Network) (b : Bounds) (side : Side) (root : Nat)
    (S : Set (DeletionSearch × Network)) (x : DeletionSearch × Network) : Prop where
  stage : ∀ y ∈ S, s.Stage net b side root y
  cut : ∀ y, s.cut net b side root = .ok y → y ∈ S
  present : x ∈ S
  next : ∀ y ∈ S, y = x ∨ ∃ z ∈ S, y.1.step y.2 b side = .ok (z.1, some z.2)

variable {S : Set (DeletionSearch × Network)} {x : DeletionSearch × Network}

/-- At first only one stage has passed. -/
lemma passed_cut (first : s.cut net b side root = .ok x) :
    s.Passed net b side root (insert x ∅) x where
  stage y member := by
    obtain rfl | impossible := Set.mem_insert_iff.1 member
    · exact .cut first
    · exact absurd impossible (Set.notMem_empty y)
  cut y same := by
    rw [first] at same
    cases same
    exact Set.mem_insert x ∅
  present := Set.mem_insert x ∅
  next y member := (Set.mem_insert_iff.1 member).imp_right fun impossible =>
    absurd impossible (Set.notMem_empty y)

/-- After a step one more stage has passed. -/
lemma Passed.step (h : s.Passed net b side root S x)
    (stepped : x.1.step x.2 b side = .ok (s', some net')) :
    s.Passed net b side root (insert (s', net') S) (s', net') where
  stage y member := by
    obtain rfl | old := Set.mem_insert_iff.1 member
    · exact .step (h.stage x h.present) stepped
    · exact h.stage y old
  cut y same := Set.mem_insert_of_mem _ (h.cut y same)
  present := Set.mem_insert _ _
  next y member := by
    obtain same | old := Set.mem_insert_iff.1 member
    · exact .inl same
    · rcases h.next y old with rfl | ⟨z, among, next⟩
      · exact .inr ⟨(s', net'), Set.mem_insert _ _, stepped⟩
      · exact .inr ⟨z, Set.mem_insert_of_mem _ among, next⟩

/-- When no step is left, all stages have passed. -/
lemma Passed.all (h : s.Passed net b side root S x) (last : x.1.step x.2 b side = .ok (s', none)) :
    S = {y | s.Stage net b side root y} := by
  refine Set.ext fun y => ⟨h.stage y, fun stage => ?_⟩
  induction stage with
  | cut first => exact h.cut _ first
  | @step y s'' net'' _ stepped ih =>
    rcases h.next y ih with rfl | ⟨z, among, next⟩
    · rw [last] at stepped
      cases stepped
    · rw [next] at stepped
      cases stepped
      exact among

/-! ## Rounds -/

/-- Steps are made until none is left.  A rule that keeps a property of the stages considered so far and
the best plan among them makes it hold of all stages. -/
lemma explore_answers {s₀ s₁ : DeletionSearch} {consider : Rule}
    {Fine : Set (DeletionSearch × Network) → Option (Nat × DeletionPlan) → Prop}
    (ground : Ground safe F net₀ b side top)
    (considers : ∀ {s net S best}, Searching safe F net₀ b side top [] net s → Later s₁ s →
      Fine S best → (consider s net best).AnswersIf safe (Fine (insert (s, net) S))) :
    ∀ {fuel : Nat} {s : DeletionSearch} {net : Network} {S : Set (DeletionSearch × Network)}
      {best : Option (Nat × DeletionPlan)},
      Searching safe F net₀ b side top [] net s → Later s₁ s →
        s₀.Passed net₀ b side root S (s, net) → Fine S best →
          net₀.size < fuel + s.seenArcs.length →
            (explore b side consider fuel s net best).AnswersIf safe fun r =>
              Searching safe F net₀ b side top [] r.2.1 r.1 ∧ Later s₁ r.1 ∧
                Fine {x | s₀.Stage net₀ b side root x} r.2.2 := by
  intro fuel
  induction fuel with
  | zero =>
    intro s net S best h _ _ _ enough
    have few := h.marking.seen_le (ground.alike h.alike).linked
    rw [h.alike.size ground.linked] at few
    omega
  | succ fuel ih =>
    intro s net S best h later passed fine enough
    unfold explore
    refine ((h.step ground).and_ensures Ensures.same).bind ?_
    rintro ⟨s', next⟩ ⟨⟨later', h'⟩, stepped⟩
    cases next with
    | none => exact .pure ⟨h', later.trans later', passed.all stepped ▸ fine⟩
    | some net' =>
      obtain ⟨h', seen⟩ := h'
      refine (considers h' (later.trans later') fine).bind fun best' fine' => ?_
      refine ih h' (later.trans later') (passed.step stepped) fine' ?_
      dsimp only at seen
      omega

/-- A whole search considers its stages, and leaves the network as it was. -/
lemma run_answers {consider : Rule}
    (Fine : Set (DeletionSearch × Network) → Option (Nat × DeletionPlan) → Prop)
    (ground : Ground safe F net₀ b side top) (clean : net₀.flagged = 0) (sized : s.Sized F.size)
    (hv : root < F.size) (fine : Fine ∅ none)
    (considers : ∀ {s' net S best}, Searching safe F net₀ b side top [] net s' →
      Visited s'.visited root → s'.penalty = s.penalty → Fine S best →
        (consider s' net best).AnswersIf safe (Fine (insert (s', net) S))) :
    (s.run net₀ b side root consider).AnswersIf safe fun r =>
      Fine {x | s.Stage net₀ b side root x} r.1 ∧ (∃ x, s.Stage net₀ b side root x) ∧
        r.2.2 = net₀ ∧ r.2.1.Sized F.size ∧ r.2.1.maxDepth = s.maxDepth ∧
          r.2.1.penalty = s.penalty := by
  rw [run_eq]
  refine ((cut_answers ground clean sized hv).and_ensures Ensures.same).bind ?_
  rintro ⟨s₁, net₁⟩ ⟨⟨h₁, known, maxDepth, penalty⟩, first⟩
  dsimp only at h₁ known maxDepth penalty ⊢
  refine (considers h₁ known penalty fine).bind fun best fine' => ?_
  have considers' : ∀ {s' net S best}, Searching safe F net₀ b side top [] net s' → Later s₁ s' →
      Fine S best → (consider s' net best).AnswersIf safe (Fine (insert (s', net) S)) :=
    fun h' later => considers h' (later.visited root known) (later.penalty.trans penalty)
  have rounds : net₀.size < net₁.size + 1 + s₁.seenArcs.length := by
    rw [h₁.alike.size ground.linked]
    omega
  refine (explore_answers ground considers' h₁ (.refl s₁) (passed_cut first) fine' rounds).bind ?_
  rintro ⟨s₂, net₂, best'⟩ ⟨h₂, later, fine''⟩
  dsimp only at h₂ later fine'' ⊢
  rw [h₂.marking.finish h₂.alike clean, ok_bind]
  exact .pure ⟨fine'', ⟨_, .cut first⟩, rfl, ⟨h₂.sized.visited, h₂.sized.expanded, h₂.sized.current,
    h₂.sized.touched_lt, h₂.sized.touched⟩, later.maxDepth.trans maxDepth,
    later.penalty.trans penalty⟩

end DeletionSearch

end Leveling
