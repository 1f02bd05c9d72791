import Leveling.Proofs.Search.Marking

/-!
# The books during a deletion search

What a deletion search does with its books does not depend on the bounds.  A visit gives a job its stored
bound, which it had all along, and an arc that is put on the queue is marked if it can be deleted.  So
when a job is expanded, no bound of the search changes, and no more arcs are unmarked than before.

No job is expanded twice, and therefore each arc that is put on the queue was listed nowhere before.
-/

namespace Leveling

open Checked Network

namespace DeletionSearch

variable {net₀ net net' : Network} {b : Bounds} {side : Side} {s s' s'' : DeletionSearch}
  {u v w n depth : Nat} {lag : Int} {ref : ArcRef} {a a' : Arc}

/-! ## Visits -/

/-- What a visit does: a job that was not visited before gets its first bound. -/
structure Met (n job : Nat) (bound : Int) (s s' : DeletionSearch) : Prop where
  same : s' = { s with visited := s'.visited, current := s'.current, touched := s'.touched }
  sized : s'.Sized n
  visited : ∀ {x}, Visited s'.visited x ↔ x = job ∨ Visited s.visited x
  current : ∀ x, valueAt s'.current x =
    if x = job ∧ ¬Visited s.visited job then bound else valueAt s.current x
  touched : Visited s.visited job ∨ s'.touched = job :: s.touched

/-- A job is visited. -/
lemma Sized.visit (sized : s.Sized n) (hv : v < n) (bound : Int) :
    (s.visit v bound).Answers (Met n v bound s) := by
  have inside : v < s.visited.size := lt_of_lt_of_eq hv sized.visited.symm
  have inside' : v < s.current.size := lt_of_lt_of_eq hv sized.current.symm
  have known : Visited s.visited v ↔ s.visited[v] = true := by
    rw [Visited, Array.getElem?_eq_getElem inside, Option.some_inj]
  unfold DeletionSearch.visit
  rw [fetch_of_lt inside, ok_bind]
  by_cases isVisited : s.visited[v] = true
  · have before := known.2 isVisited
    rw [if_pos isVisited]
    refine .pure ⟨rfl, sized, fun {x} => ?_, fun x => (if_neg fun h => h.2 before).symm, .inl before⟩
    exact (or_iff_right_of_imp fun same => same ▸ before).symm
  · have before := mt known.1 isVisited
    rw [if_neg isVisited, store_of_lt _ inside, ok_bind, store_of_lt _ inside', ok_bind]
    refine .pure ⟨rfl, ⟨?_, sized.expanded, ?_, fun x member => ?_, fun x isKnown => ?_⟩,
      visited_set inside, fun x => ?_, .inr rfl⟩
    · rw [Array.size_set, sized.visited]
    · rw [Array.size_set, sized.current]
    · rcases List.mem_cons.1 member with rfl | member
      · exact hv
      · exact sized.touched_lt x member
    · rcases isKnown with isKnown | isKnown
      · rcases (visited_set inside).1 isKnown with rfl | isKnown
        · exact List.mem_cons_self
        · exact List.mem_cons_of_mem _ (sized.touched x (.inl isKnown))
      · exact List.mem_cons_of_mem _ (sized.touched x (.inr isKnown))
    · rw [valueAt_set]
      simp only [before, not_false_eq_true, and_true]

/-- A visit with the stored bound changes no bound of the search. -/
lemma Met.boundIn (met : Met n v (valueAt (b.table side).value v) s s') :
    s'.boundIn b side = s.boundIn b side := by
  funext x
  have bound := met.current x
  unfold DeletionSearch.boundIn
  by_cases before : Visited s.visited x
  · rw [if_neg fun h => h.2 (h.1 ▸ before)] at bound
    rw [if_pos (met.visited.2 (.inr before)), if_pos before, bound]
  · by_cases here : x = v
    · subst here
      rw [if_pos ⟨rfl, before⟩] at bound
      rw [if_pos (met.visited.2 (.inl rfl)), if_neg before, bound]
    · rw [if_neg fun known => (met.visited.1 known).elim here before, if_neg before]

/-- The state comes later in the same search. -/
structure Later (s s' : DeletionSearch) : Prop where
  maxDepth : s'.maxDepth = s.maxDepth
  penalty : s'.penalty = s.penalty
  visited : ∀ v, Visited s.visited v → Visited s'.visited v

/-- A state comes later than itself. -/
lemma Later.refl (s : DeletionSearch) : Later s s := ⟨rfl, rfl, fun _ => id⟩

/-- Coming later goes on. -/
lemma Later.trans (h : Later s s') (h' : Later s' s'') : Later s s'' :=
  ⟨h'.maxDepth.trans h.maxDepth, h'.penalty.trans h.penalty,
    fun v known => h'.visited v (h.visited v known)⟩

/-- A visit comes later. -/
lemma Met.later {bound : Int} (met : Met n v bound s s') : Later s s' := by
  refine ⟨?_, ?_, fun x known => met.visited.2 (.inr known)⟩
  · rw [met.same]
  · rw [met.same]

/-- The books agree after a visit. -/
lemma Marking.visit {bound : Int} (h : Marking side net s) (met : Met n v bound s s') :
    Marking side net s' := by
  rw [met.same]
  refine ⟨fun r member => ?_, h.distinct, h.marked, h.seen, h.removed, fun x known => ?_⟩
  · obtain ⟨a, found, near, far⟩ := h.named r member
    exact ⟨a, found, near, met.visited.2 (.inr far)⟩
  · exact met.visited.2 (.inr (h.expanded x known))

/-! ## Flags -/

/-- After the flags of an arc were changed, no other arc is unmarked than before, except for the arc
itself if its mark was cleared. -/
lemma unmarked_of_flipped (found : net.arc ref = .ok a)
    (flipped : Flipped ref.place a a' net net') (arc : net'.Unmarked side u v lag) :
    net.Unmarked side u v lag ∨
      (v = side.nearEnd ref a ∧ a.marked = true ∧ a'.marked = false) := by
  obtain ⟨c, step, unmarked, rfl⟩ := arc
  obtain ⟨r, found', far, near⟩ := step.exists_ref
  obtain ⟨fresh, entry⟩ := arc_eq_ok.1 found'
  have bare : a'.bare = a.bare := by
    have same : entryAt net'.bare.outgoing ref.place = entryAt net.bare.outgoing ref.place := by
      rw [flipped.alike]
    rw [entryAt_bare, entryAt_bare, flipped.entry_self, (arc_eq_ok.1 found).2] at same
    exact Option.some.inj same
  have target : a'.bare.target = a.bare.target := congrArg Arc.target bare
  have sameLag : a'.bare.lag = a.bare.lag := congrArg Arc.lag bare
  change a'.target = a.target at target
  change a'.lag = a.lag at sameLag
  rw [flipped.replaced.entry] at entry
  split at entry
  · rename_i here
    cases entry
    have same : r = ref := by
      rw [← refAt_place found', refAt_alike flipped.alike, here, refAt_place found]
    subst same
    by_cases marked : a.marked = true
    · refine .inr ⟨?_, marked, unmarked⟩
      rw [← near]
      cases side with
      | early => exact target
      | late => rfl
    · refine .inl ⟨a, ?_, Bool.not_eq_true _ ▸ marked, sameLag.symm⟩
      rw [← far, ← near]
      cases side with
      | early =>
        dsimp only [Side.nearEnd, Side.farEnd]
        rw [target]
        exact step_of_arc found
      | late =>
        dsimp only [Side.nearEnd, Side.farEnd]
        rw [target]
        exact step_of_arc found
  · have found₀ : net.arc r = .ok c := arc_eq_ok.2 ⟨fresh.trans flipped.alike.generation, entry⟩
    refine .inl ⟨c, ?_, unmarked, rfl⟩
    rw [← far, ← near]
    exact step_of_arc found₀

/-- The books do not depend on the bounds of a search. -/
lemma Marking.current (h : Marking side net s) (current : Array Int) :
    Marking side net { s with current } :=
  ⟨h.named, h.distinct, h.marked, h.seen, h.removed, h.expanded⟩

/-- The lists of a state still have an entry for each job after bounds were computed. -/
lemma Sized.recomputed (sized : s.Sized n) (same : s' = { s with current := s'.current })
    (size : s'.current.size = n) : s'.Sized n := by
  rw [same]
  exact ⟨sized.visited, sized.expanded, size, sized.touched_lt, sized.touched⟩

/-- If an arc is marked, the number of marked arcs can be decreased. -/
lemma Marking.removed_pos (h : Marking side net s) (found : net.arc ref = .ok a)
    (marked : a.marked = true) : 1 ≤ s.removed := by
  rw [h.removed]
  unfold markedCount
  rw [← countP_entries]
  exact List.countP_pos_iff.2 ⟨_, mem_entries.2 (arc_eq_ok.1 found).2, marked⟩

/-! ## The books in order -/

/-- The books of a search that started with the network `net₀` are in order. -/
structure Booked (net₀ : Network) (side : Side) (net : Network) (s : DeletionSearch) : Prop where
  alike : Alike net₀ net
  sized : s.Sized net₀.numJobs
  marking : Marking side net s

/-- The books are in order after bounds were computed. -/
lemma Booked.recomputed (h : Booked net₀ side net s) (same : s' = { s with current := s'.current })
    (size : s'.current.size = s.current.size) : Booked net₀ side net s' where
  alike := h.alike
  sized := h.sized.recomputed same (size.trans h.sized.current)
  marking := same ▸ h.marking.current s'.current

/-- The search has gone on without a change of its bounds, and with no more unmarked arcs than before. -/
structure Extended (net₀ : Network) (b : Bounds) (side : Side) (net : Network) (s : DeletionSearch)
    (r : DeletionSearch × Network) : Prop where
  booked : Booked net₀ side r.2 r.1
  later : Later s r.1
  seenArcs : r.1.seenArcs = s.seenArcs
  boundIn : r.1.boundIn b side = s.boundIn b side
  unmarked : ∀ {u w lag}, r.2.Unmarked side u w lag → net.Unmarked side u w lag

/-- The search may go on further. -/
lemma Extended.trans {r r' : DeletionSearch × Network} (h : Extended net₀ b side net s r)
    (h' : Extended net₀ b side r.2 r.1 r') : Extended net₀ b side net s r' where
  booked := h'.booked
  later := h.later.trans h'.later
  seenArcs := h'.seenArcs.trans h.seenArcs
  boundIn := h'.boundIn.trans h.boundIn
  unmarked arc := h.unmarked (h'.unmarked arc)

/-- An arc that is listed nowhere is put on the queue. -/
lemma Booked.enqueue (linked : net.Linked) (values : (b.table side).value.size = net.numJobs)
    (h : Booked net₀ side net s) (found : net.arc ref = .ok a)
    (near : Visited s.expanded (side.nearEnd ref a)) (fresh : ref ∉ s.listedArcs) (depth : Nat) :
    (s.enqueue b side depth net ref).Answers fun r => Extended net₀ b side net s r ∧
      r.1.expanded = s.expanded ∧ ∀ r' ∈ r.1.listedArcs, r' = ref ∨ r' ∈ s.listedArcs := by
  have far : side.farEnd ref a < net.numJobs := (linked.lt_of_step (step_of_arc found)).1
  unfold DeletionSearch.enqueue
  rw [found, ok_bind]
  dsimp only
  rw [fetch_valueAt (lt_of_lt_of_eq far values.symm), ok_bind]
  refine (h.sized.visit (lt_of_lt_of_eq far h.alike.numJobs) _).bind fun s' met => ?_
  have marking := h.marking.visit met
  have sized := met.sized
  have later := met.later
  have expanded : s'.expanded = s.expanded := by rw [met.same]
  have seen : s'.seenArcs = s.seenArcs := by rw [met.same]
  have listed : s'.listedArcs = s.listedArcs := by rw [met.same]; rfl
  have near' : Visited s'.expanded (side.nearEnd ref a) := by rwa [expanded]
  have fresh' : ref ∉ s'.listedArcs := by rwa [listed]
  have far' : Visited s'.visited (side.farEnd ref a) := met.visited.2 (.inl rfl)
  by_cases permanent : a.permanent = true
  · rw [if_pos permanent]
    refine .pure ⟨⟨⟨h.alike, { sized with }, marking.push_permanent found fresh' near' far' depth⟩,
      ⟨later.maxDepth, later.penalty, later.visited⟩, seen, met.boundIn, id⟩, expanded,
      fun r' member => ?_⟩
    exact listed ▸ List.mem_cons.1 ((listedArcs_push (.refl _)).mem_iff.1 member)
  · rw [if_neg permanent]
    refine (adjustArc_answers found rfl).bind fun net' flipped => ?_
    refine .pure ⟨⟨⟨h.alike.trans flipped.alike, { sized with },
      marking.push_marked found fresh' near' far' depth (Bool.not_eq_true _ ▸ permanent) flipped⟩,
      ⟨later.maxDepth, later.penalty, later.visited⟩, seen, met.boundIn, fun arc => ?_⟩, expanded,
      fun r' member => ?_⟩
    · rcases unmarked_of_flipped found flipped arc with old | ⟨-, -, impossible⟩
      · exact old
      · cases impossible
    · have pushed := List.perm_append_singleton (ref, depth) s'.queue
      exact listed ▸ List.mem_cons.1 ((listedArcs_push pushed).mem_iff.1 member)

/-- A job that was visited is noted as expanded. -/
lemma Booked.setExpanded (h : Booked net₀ side net s) (known : Visited s.visited v)
    (hv : v < s.expanded.size) :
    Booked net₀ side net { s with expanded := s.expanded.set v true hv } := by
  refine ⟨h.alike, ⟨h.sized.visited, (Array.size_set hv).trans h.sized.expanded, h.sized.current,
    h.sized.touched_lt, fun x isKnown => ?_⟩, ⟨fun r member => ?_, h.marking.distinct,
    h.marking.marked, h.marking.seen, h.marking.removed, fun x isKnown => ?_⟩⟩
  · rcases isKnown with isKnown | isKnown
    · exact h.sized.touched x (.inl isKnown)
    · rcases (visited_set hv).1 isKnown with rfl | isKnown
      · exact h.sized.touched x (.inl known)
      · exact h.sized.touched x (.inr isKnown)
  · obtain ⟨a, found, near, far⟩ := h.marking.named r member
    exact ⟨a, found, (visited_set hv).2 (.inr near), far⟩
  · rcases (visited_set hv).1 isKnown with rfl | isKnown
    · exact known
    · exact h.marking.expanded x isKnown

/-- A job that was visited but not expanded is expanded. -/
lemma Booked.expand (linked : net.Linked) (values : (b.table side).value.size = net.numJobs)
    (h : Booked net₀ side net s) (known : Visited s.visited v) (new : ¬Visited s.expanded v)
    (depth : Nat) :
    (s.expand net b side v depth).Answers fun r => Extended net₀ b side net s r ∧
      ∀ x, Visited r.1.expanded x ↔ x = v ∨ Visited s.expanded x := by
  have hv := h.sized.lt_of_visited known
  have hv' : v < s.expanded.size := lt_of_lt_of_eq hv h.sized.expanded.symm
  unfold DeletionSearch.expand
  rw [store_of_lt _ hv', ok_bind]
  refine (linked.refsTo side (lt_of_lt_of_eq hv h.alike.numJobs.symm)).bind
    fun refs ⟨distinct, mem_refs⟩ => ?_
  have started : Extended net₀ b side net s ({ s with expanded := s.expanded.set v true hv' }, net) :=
    ⟨h.setExpanded known hv', ⟨rfl, rfl, fun _ => id⟩, rfl, rfl, id⟩
  -- the arcs that are still to come have the job at their near end and are listed nowhere
  refine (Answers.foldlM_rest (fun rest (r : DeletionSearch × Network) =>
    Extended net₀ b side net s r ∧ r.1.expanded = s.expanded.set v true hv' ∧ rest.Nodup ∧
      ∀ ref ∈ rest, ref ∉ r.1.listedArcs ∧ ∃ a, r.2.arc ref = .ok a ∧ side.nearEnd ref a = v)
    ?_ ⟨started, rfl, distinct, fun ref member => ?_⟩).imp fun r ⟨extended, expanded, _⟩ =>
      ⟨extended, fun x => expanded ▸ visited_set hv'⟩
  · rintro ⟨s₁, net₁⟩ ref rest ⟨h₁, expanded, nodup, rest_fresh⟩
    obtain ⟨fresh, a, found, near⟩ := rest_fresh ref List.mem_cons_self
    obtain ⟨distinct_ref, nodup⟩ := List.nodup_cons.1 nodup
    have alike₁ : Alike net net₁ := h.alike.symm.trans h₁.booked.alike
    have near' : Visited s₁.expanded (side.nearEnd ref a) := by
      dsimp only at expanded
      rw [near, expanded]
      exact (visited_set hv').2 (.inl rfl)
    refine (h₁.booked.enqueue (alike₁.linked linked) (values.trans alike₁.numJobs.symm) found near'
      fresh depth).imp fun r ⟨h₂, expanded₂, listed⟩ => ⟨h₁.trans h₂, expanded₂.trans expanded, nodup,
        fun ref' member => ⟨fun among => ?_, ?_⟩⟩
    · rcases listed ref' among with rfl | old
      · exact distinct_ref member
      · exact (rest_fresh ref' (List.mem_cons_of_mem _ member)).1 old
    · obtain ⟨-, a', found', near⟩ := rest_fresh ref' (List.mem_cons_of_mem _ member)
      have alike : Alike net₁ r.2 := h₁.booked.alike.symm.trans h₂.booked.alike
      obtain ⟨c, found, ends, -⟩ := ends_of_alike (P := fun x => x = v) (Q := fun _ => True) alike
        ⟨a', found', near, trivial⟩
      exact ⟨c, found, ends⟩
  · obtain ⟨a, found, near⟩ := (mem_refs ref).1 member
    refine ⟨fun among => new ?_, a, found, near⟩
    obtain ⟨a', found', near', -⟩ := h.marking.named ref among
    rw [found] at found'
    cases found'
    rwa [near] at near'

/-! ## Taking an arc from the queue -/

/-- The jobs at the ends of a listed arc are visited. -/
lemma Marking.ends (h : Marking side net s) (listed : ref ∈ s.listedArcs)
    (found : net.arc ref = .ok a) :
    Visited s.visited (side.nearEnd ref a) ∧ Visited s.visited (side.farEnd ref a) := by
  obtain ⟨a', found', near, far⟩ := h.named ref listed
  rw [found] at found'
  cases found'
  exact ⟨h.expanded _ near, far⟩

/-- Arcs are taken from the queue up to the first one to look at, which is put back here. -/
lemma Marking.next (h : Marking side net s) :
    (nextArc net s.maxDepth s.pruned s.queue).Answers fun (pruned, found, queue) =>
      match found with
      | none => Marking side net { s with pruned, queue }
      | some (ref, depth, a) => net.arc ref = .ok a ∧
          Marking side net { s with pruned, queue := (ref, depth) :: queue } := by
  have named : ∀ e ∈ s.queue, ∃ a, net.arc e.1 = .ok a := by
    intro e member
    obtain ⟨a, found, -⟩ := h.named e.1 (List.mem_append_left _ (List.mem_append_left _
      (List.mem_map_of_mem member)))
    exact ⟨a, found⟩
  refine (nextArc_answers s.maxDepth named).imp ?_
  rintro ⟨pruned, found, queue⟩ ⟨skipped, more, skip, rfl, took⟩
  cases found with
  | none =>
    obtain ⟨all, rfl⟩ := took
    exact h.skip (all.trans (List.append_nil _).symm) skip
  | some entry =>
    obtain ⟨ref, depth, a⟩ := entry
    obtain ⟨split, found, -, -⟩ := took
    exact ⟨found, h.skip split skip⟩

/-- The first arc of the queue, which is marked, is seen, and its mark is cleared. -/
lemma Marking.unmark (h : Marking side net s) {rest : List (ArcRef × Nat)}
    (queue : s.queue = (ref, depth) :: rest) (found : net.arc ref = .ok a) (marked : a.marked = true)
    (flipped : Flipped ref.place a { a with marked := false, seen := true } net net') :
    Marking side net'
      { s with queue := rest, seenArcs := s.seenArcs ++ [ref], removed := s.removed - 1 } := by
  refine h.take queue found flipped ?_
  rw [marked]
  exact Nat.sub_add_cancel (h.removed_pos found marked)

/-- The first arc of the queue, which is not marked, is seen. -/
lemma Marking.see (h : Marking side net s) {rest : List (ArcRef × Nat)}
    (queue : s.queue = (ref, depth) :: rest) (found : net.arc ref = .ok a)
    (unmarked : a.marked = false)
    (flipped : Flipped ref.place a { a with seen := true } net net') :
    Marking side net' { s with queue := rest, seenArcs := s.seenArcs ++ [ref] } := by
  have same : ({ a with seen := true } : Arc) = { a with marked := false, seen := true } := by
    rw [← unmarked]
  refine h.take queue found (same ▸ flipped) ?_
  rw [unmarked]
  rfl

end DeletionSearch

end Leveling
