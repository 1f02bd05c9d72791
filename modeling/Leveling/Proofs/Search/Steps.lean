import Leveling.Proofs.Search.Books

/-!
# A step of a deletion search

Each step of a deletion search keeps the books in order and, as long as it is safe, the bounds of the
search where there is room for them.  No visited job has a bound that is looser both than its stored
bound and than what the unmarked arcs imply, except for the jobs that still have to be looked at:
those are the root at first, and the job at the near end of an arc whose mark was just cleared.

A step that looks at an arc lists it as seen, so there are at most as many such steps as there are
arcs.
-/

namespace Leveling

open Checked Network

namespace DeletionSearch

variable {F : Frame} {net₀ net net' : Network} {b : Bounds} {side : Side} {top : Nat → Int}
  {safe : Prop} {s s' : DeletionSearch} {v depth : Nat} {pending : List Nat} {ref : ArcRef} {a : Arc}

/-! ## What holds during a search -/

/-- The bound of the job is as tight as its stored one, or no unmarked arc demands more. -/
def Enough (F : Frame) (net : Network) (b : Bounds) (side : Side) (s : DeletionSearch)
    (v : Nat) : Prop :=
  F.heights side (b.table side).value v ≤ s.heightIn F b side v ∨
    s.heightIn F b side v ∈ upperBounds (s.Demanded F net b side v)

/-- What holds during a search that started with the network `net₀`, while some jobs still have to
be looked at. -/
structure Searching (safe : Prop) (F : Frame) (net₀ : Network) (b : Bounds) (side : Side)
    (top : Nat → Int) (pending : List Nat) (net : Network) (s : DeletionSearch) : Prop where
  alike : Alike net₀ net
  sized : s.Sized F.size
  within : safe → s.Within F side top
  marking : Marking side net s
  enough : ∀ v, Visited s.visited v → v ∉ pending → s.Enough F net b side v

/-- With fewer unmarked arcs, less is demanded. -/
lemma Enough.mono (enough : s.Enough F net b side v)
    (same : s'.heightIn F b side = s.heightIn F b side)
    (sub : ∀ {u lag}, net'.Unmarked side u v lag → net.Unmarked side u v lag) :
    s'.Enough F net' b side v := by
  unfold Enough Demanded
  rw [same]
  refine enough.imp_right fun upper => ?_
  rintro y (rfl | ⟨u, lag, arc, rfl⟩)
  · exact upper (.inl rfl)
  · exact upper (.inr ⟨u, lag, sub arc, rfl⟩)

/-! ## Expanding a job -/

/-- The books of a search are in order. -/
lemma Searching.booked (ground : Ground safe F net₀ b side top)
    (h : Searching safe F net₀ b side top pending net s) : Booked net₀ side net s :=
  ⟨h.alike, ground.size ▸ h.sized, h.marking⟩

/-- What holds during a search holds after it has gone on without a change of its bounds. -/
lemma Searching.extended {r : DeletionSearch × Network} (ground : Ground safe F net₀ b side top)
    (h : Searching safe F net₀ b side top pending net s) (extended : Extended net₀ b side net s r) :
    Searching safe F net₀ b side top pending r.2 r.1 := by
  have ground' := ground.alike h.alike
  have heights : r.1.heightIn F b side = s.heightIn F b side := by
    unfold DeletionSearch.heightIn
    rw [extended.boundIn]
  refine ⟨extended.booked.alike, ground.size ▸ extended.booked.sized, fun isSafe x known => ?_,
    extended.booked.marking, fun x known settled => ?_⟩
  · rw [← heightIn_of_visited (b := b) known, heights]
    exact (h.within isSafe).mem (ground'.room isSafe) x
  · by_cases before : Visited s.visited x
    · exact (h.enough x before settled).mono heights extended.unmarked
    · refine .inl ?_
      rw [heights]
      unfold DeletionSearch.heightIn boundIn
      rw [if_neg before]
      rfl

/-- A job that was visited but not expanded is expanded. -/
lemma Searching.expand (ground : Ground safe F net₀ b side top)
    (h : Searching safe F net₀ b side top pending net s) (known : Visited s.visited v)
    (new : ¬Visited s.expanded v) (depth : Nat) :
    (s.expand net b side v depth).Answers fun r =>
      Searching safe F net₀ b side top pending r.2 r.1 ∧ Later s r.1 ∧ r.1.seenArcs = s.seenArcs := by
  have ground' := ground.alike h.alike
  exact ((h.booked ground).expand ground'.linked (ground'.value_size.trans ground'.size.symm) known
    new depth).imp fun r ⟨extended, _⟩ =>
      ⟨h.extended ground extended, extended.later, extended.seenArcs⟩

/-! ## Looking at jobs -/

/-- After the job that is pending was looked at, none is pending. -/
lemma Searching.update (ground : Ground safe F net₀ b side top)
    (h : Searching safe F net₀ b side top pending net s) (known : Visited s.visited v)
    (only : ∀ x ∈ pending, x = v) :
    (s.update net b side v).AnswersIf safe fun s' => Searching safe F net₀ b side top [] net s' ∧
      SettledFrom safe F net b side top s [v] s' := by
  have ground' := ground.alike h.alike
  refine (update_answers ground' h.sized h.within known).imp fun s' settled => ⟨?_, settled⟩
  have visited : s'.visited = s.visited := by rw [settled.same]
  refine ⟨h.alike, h.sized.recomputed settled.same settled.size, settled.within, ?_,
    fun x isKnown _ => ?_⟩
  · rw [settled.same]
    exact h.marking.current _
  · rw [visited] at isKnown
    rcases settled.settled x isKnown with upToDate | ⟨fresh, same⟩
    · exact .inr upToDate.2
    · have before := h.enough x isKnown fun member =>
        fresh (List.mem_singleton.2 (only x member))
      unfold Enough Demanded
      rw [same.height]
      refine before.imp_right fun upper => ?_
      rintro y (rfl | ⟨u, lag, arc, rfl⟩)
      · exact upper (.inl rfl)
      · rw [same.before arc]
        exact upper (.inr ⟨u, lag, arc, rfl⟩)

/-- The arc of a step is kept: its mark is cleared, and then the job at its near end is looked at. -/
lemma Searching.keep {net₁ : Network} {rest : List (ArcRef × Nat)}
    (ground : Ground safe F net₀ b side top) (h : Searching safe F net₀ b side top [] net s)
    (queue : s.queue = (ref, depth) :: rest) (found : net.arc ref = .ok a)
    (flipped : Flipped ref.place a { a with seen := true } net net₁) :
    (DeletionSearch.keep { s with queue := rest, seenArcs := s.seenArcs ++ [ref] } net₁ b side ref
      a).AnswersIf safe fun r => Searching safe F net₀ b side top [] r.2 r.1 ∧ Later s r.1 ∧
        r.1.seenArcs = s.seenArcs ++ [ref] := by
  have listed := mem_listedArcs queue
  have near_known := (h.marking.ends listed found).1
  unfold DeletionSearch.keep
  by_cases marked : a.marked = true
  · rw [if_pos marked]
    refine (adjustArc_answers (f := fun a => { a with marked := false }) (flipped.arc found)
      rfl).answersIf.bind fun net₂ flipped' => ?_
    have both : Flipped ref.place a { a with marked := false, seen := true } net net₂ :=
      flipped.trans flipped'
    have positive := h.marking.removed_pos found marked
    dsimp only
    rw [subCount_of_le positive, ok_bind]
    have cleared : Searching safe F net₀ b side top [side.nearEnd ref a] net₂
        { s with queue := rest, seenArcs := s.seenArcs ++ [ref], removed := s.removed - 1 } := by
      refine ⟨h.alike.trans both.alike, { h.sized with }, h.within,
        h.marking.unmark queue found marked both, fun x known settled => ?_⟩
      refine (h.enough x known List.not_mem_nil).mono rfl fun arc => ?_
      rcases unmarked_of_flipped found both arc with old | ⟨same, -, -⟩
      · exact old
      · exact absurd (List.mem_singleton.2 same) settled
    refine (cleared.update ground near_known fun x member => List.mem_singleton.1 member).bind
      fun s' ⟨h', settled⟩ => .pure ⟨h', ?_, ?_⟩
    · rw [settled.same]
      exact ⟨rfl, rfl, fun _ => id⟩
    · rw [settled.same]
  · rw [if_neg marked]
    have unmarked : a.marked = false := Bool.not_eq_true _ ▸ marked
    refine .pure ⟨⟨h.alike.trans flipped.alike, { h.sized with }, h.within,
      h.marking.see queue found unmarked flipped, fun x known settled => ?_⟩,
      ⟨rfl, rfl, fun _ => id⟩, rfl⟩
    refine (h.enough x known List.not_mem_nil).mono rfl fun arc => ?_
    rcases unmarked_of_flipped found flipped arc with old | ⟨-, impossible, -⟩
    · exact old
    · exact absurd impossible marked

/-! ## Steps -/

/-- The jobs at the ends of a listed arc are visited. -/
lemma Searching.ends (h : Searching safe F net₀ b side top pending net s) (listed : ref ∈ s.listedArcs)
    (found : net.arc ref = .ok a) :
    Visited s.visited (side.nearEnd ref a) ∧ Visited s.visited (side.farEnd ref a) :=
  h.marking.ends listed found

/-- Arcs are taken from the queue up to the first one to look at, which is put back here. -/
lemma Searching.take (h : Searching safe F net₀ b side top [] net s) :
    (nextArc net s.maxDepth s.pruned s.queue).Answers fun (pruned, found, queue) =>
      match found with
      | none => Searching safe F net₀ b side top [] net { s with pruned, queue }
      | some (ref, depth, a) => net.arc ref = .ok a ∧
          Searching safe F net₀ b side top [] net { s with pruned, queue := (ref, depth) :: queue } := by
  refine h.marking.next.imp ?_
  rintro ⟨pruned, found, queue⟩ taken
  have skipped_to : ∀ queue, Marking side net { s with pruned, queue } →
      Searching safe F net₀ b side top [] net { s with pruned, queue } := fun queue marking =>
    ⟨h.alike, { h.sized with }, h.within, marking, h.enough⟩
  cases found with
  | none => exact skipped_to queue taken
  | some entry => exact ⟨taken.1, skipped_to _ taken.2⟩

/-- A visited job is expanded unless it was before, and then it is looked at. -/
lemma Searching.advance (ground : Ground safe F net₀ b side top)
    (h : Searching safe F net₀ b side top [] net s) (known : Visited s.visited v) (depth : Nat) :
    (do
      let r ← if ← fetch s.expanded v then pure (s, net) else s.expand net b side v depth
      return (← r.1.update r.2 b side v, some r.2) :
        Checked (DeletionSearch × Option Network)).AnswersIf safe fun r =>
      ∃ net', r.2 = some net' ∧ Searching safe F net₀ b side top [] net' r.1 ∧ Later s r.1 ∧
        r.1.seenArcs = s.seenArcs := by
  have hv : v < s.expanded.size :=
    lt_of_lt_of_eq (h.sized.lt_of_visited known) h.sized.expanded.symm
  have isExpanded : Visited s.expanded v ↔ s.expanded[v] = true := by
    rw [Visited, Array.getElem?_eq_getElem hv, Option.some_inj]
  have last : ∀ {s₁ : DeletionSearch} {net₁ : Network}, Searching safe F net₀ b side top [] net₁ s₁ →
      Later s s₁ → s₁.seenArcs = s.seenArcs →
        (do
          let s₂ ← s₁.update net₁ b side v
          return (s₂, some net₁) : Checked (DeletionSearch × Option Network)).AnswersIf safe fun r =>
            ∃ net', r.2 = some net' ∧ Searching safe F net₀ b side top [] net' r.1 ∧ Later s r.1 ∧
              r.1.seenArcs = s.seenArcs := by
    intro s₁ net₁ h₁ later seen
    refine (h₁.update ground (later.visited _ known) fun x member => absurd member
      List.not_mem_nil).bind ?_
    rintro s₂ ⟨h₂, settled⟩
    refine .pure ⟨net₁, rfl, h₂, later.trans ?_, ?_⟩
    · rw [settled.same]
      exact ⟨rfl, rfl, fun _ => id⟩
    · dsimp only
      rw [settled.same]
      exact seen
  rw [fetch_of_lt hv, ok_bind]
  split
  · exact last h (.refl s) rfl
  · rename_i new
    refine (h.expand ground known (mt isExpanded.1 new) depth).answersIf.bind ?_
    rintro ⟨s₁, net₁⟩ ⟨h₁, later, seen⟩
    exact last h₁ later seen

/-- A step keeps the search going, and lists one more arc as seen unless it ends the search. -/
lemma Searching.step (ground : Ground safe F net₀ b side top)
    (h : Searching safe F net₀ b side top [] net s) :
    (s.step net b side).AnswersIf safe fun r => Later s r.1 ∧
      match r.2 with
      | none => Searching safe F net₀ b side top [] net r.1
      | some net' => Searching safe F net₀ b side top [] net' r.1 ∧
          r.1.seenArcs.length = s.seenArcs.length + 1 := by
  unfold DeletionSearch.step
  refine h.take.answersIf.bind ?_
  rintro ⟨pruned, found, queue⟩ taken
  cases found with
  | none => exact .pure ⟨⟨rfl, rfl, fun _ => id⟩, taken⟩
  | some entry =>
    obtain ⟨ref, depth, a⟩ := entry
    obtain ⟨found, h₁⟩ := taken
    dsimp only at found h₁ ⊢
    refine (adjustArc_answers found rfl).answersIf.bind fun net₁ flipped => ?_
    refine (h₁.keep ground rfl found flipped).bind ?_
    rintro ⟨s₂, net₂⟩ ⟨h₂, later, seen⟩
    have later : Later s s₂ := ⟨later.maxDepth, later.penalty, later.visited⟩
    have known := later.visited _ (h₁.ends (mem_listedArcs rfl) found).2
    refine (h₂.advance ground known (depth + 1)).imp ?_
    rintro ⟨s₃, _⟩ ⟨net₃, rfl, h₃, later₃, seen₃⟩
    refine ⟨later.trans later₃, h₃, ?_⟩
    dsimp only at seen seen₃ ⊢
    rw [seen₃, seen, List.length_append]
    rfl

end DeletionSearch

end Leveling
