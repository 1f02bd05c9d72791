import Leveling.Proofs.Search.Journals

/-!
# Deletion searches come to an end

A deletion search ends in every acyclic network, whatever its bounds are, unless a number leaves its
range.  There are two reasons for it.

The search expands no job twice, and an arc is put on the queue only when the job at its near end is
expanded.  So no arc is put on the queue twice, and since every step but the last one lists another arc as
seen, there is at most one step more than there are arcs.

Within a step the bounds are settled, up to two times.  Clearing a mark tightens bounds and marking arcs
loosens them, so no bound moves in one direction only.  But the arcs close no cycle, so each worklist
becomes empty, and then all jobs that were looked at have the bounds that their unmarked arcs imply.
-/

namespace Leveling

open Checked Network

namespace DeletionSearch

variable {net₀ net net' : Network} {b : Bounds} {side : Side} {s s' : DeletionSearch} {j : Journal}
  {root v depth : Nat} {ref : ArcRef} {a : Arc}

/-! ## What a journal shows -/

/-- A settlement has come to its end: the worklist became empty with the last job that was looked at, and
now the jobs that were looked at have the bounds that are implied for them. -/
structure Settlement.Finished (net₀ : Network) (b : Bounds) (side : Side) (u : Settlement) : Prop where
  /-- The network of the settlement differs from the given one in flags only. -/
  alike : Alike net₀ u.network
  rounds : ∀ fuel : Nat, u.before.settle u.network b side fuel [u.job] =
    if u.looked.length ≤ fuel then .ok u.after else .error .unsettled
  few : u.looked.length ≤ u.network.walkBound
  first : u.job ∈ u.looked
  implied : ∀ v ∈ u.looked, Visited u.after.visited v ∧ u.after.IsImplied u.network b side v

/-- What the journal of a search shows. -/
structure Journal.Sound (net₀ : Network) (b : Bounds) (side : Side) (j : Journal) : Prop where
  once : j.expanded.Nodup
  named : ∀ ref ∈ j.queued, ∃ a, net₀.arc ref = .ok a ∧ side.nearEnd ref a ∈ j.expanded
  distinct : j.queued.Nodup
  finished : ∀ u ∈ j.settlements, u.Finished net₀ b side

/-- A blank journal shows nothing. -/
lemma Journal.sound_blank (net₀ : Network) (b : Bounds) (side : Side) :
    Journal.blank.Sound net₀ b side where
  once := List.nodup_nil
  named _ member := absurd member List.not_mem_nil
  distinct := List.nodup_nil
  finished _ member := absurd member List.not_mem_nil

/-- The books of a search are in order, and its journal tells which jobs were expanded. -/
structure Recorded (net₀ : Network) (b : Bounds) (side : Side) (net : Network) (s : DeletionSearch)
    (j : Journal) : Prop where
  booked : Booked net₀ side net s
  expanded : ∀ v, v ∈ j.expanded ↔ Visited s.expanded v
  sound : j.Sound net₀ b side

/-! ## What a search does to its journal -/

/-- The bounds are settled, and the settlement has come to its end. -/
lemma Recorded.update (ready : Explorable net₀ b side) (h : Recorded net₀ b side net s j)
    (known : Visited s.visited v) :
    (j.update s net b side v).AnswersIf False fun r => Recorded net₀ b side net r.1 r.2 ∧
      r.1 = { s with current := r.1.current } ∧ r.2.steps = j.steps := by
  have ready' := ready.alike h.booked.alike
  have sized : s.Sized net.numJobs := h.booked.alike.numJobs ▸ h.booked.sized
  have waiting : ∀ x ∈ [v], Visited s.visited x := fun x member => by
    rwa [List.mem_singleton.1 member]
  have paid : ([v].map (net.allowance side)).sum ≤ net.walkBound := by
    rw [List.map_singleton, List.sum_singleton]
    exact net.allowance_le side v
  unfold Journal.update
  refine ((settleListing_answersIf ready' sheltered_false sized (fun _ => trivial) waiting
    paid).and_ensures Ensures.same).bind ?_
  rintro ⟨after, looked⟩ ⟨⟨lookedAt, -, few⟩, answer⟩
  dsimp only at lookedAt few
  have visited : after.visited = s.visited := by rw [lookedAt.same]
  have expanded : after.expanded = s.expanded := by rw [lookedAt.same]
  have finished : Settlement.Finished net₀ b side ⟨net, s, v, looked, after⟩ :=
    ⟨h.booked.alike, settle_of_listing answer, few, lookedAt.waiting v List.mem_cons_self,
      fun x member => ⟨visited ▸ (lookedAt.implied x member).1, (lookedAt.implied x member).2⟩⟩
  refine .pure ⟨⟨h.booked.recomputed lookedAt.same lookedAt.size, fun x => ?_, h.sound.once,
    h.sound.named, h.sound.distinct, List.forall_mem_cons.2 ⟨finished, h.sound.finished⟩⟩,
    lookedAt.same, rfl⟩
  rw [expanded]
  exact h.expanded x

/-- A job that was not expanded before is expanded. -/
lemma Recorded.expand (ready : Explorable net₀ b side) (h : Recorded net₀ b side net s j)
    (known : Visited s.visited v) (new : ¬Visited s.expanded v) (depth : Nat) :
    (j.expand s net b side v depth).Answers fun r => Recorded net₀ b side r.1.2 r.1.1 r.2 ∧
      Later s r.1.1 ∧ r.1.1.seenArcs = s.seenArcs ∧ r.2.steps = j.steps := by
  have alike := h.booked.alike
  have ready' := ready.alike alike
  have hv : v < net.numJobs := lt_of_lt_of_eq (h.booked.sized.lt_of_visited known) alike.numJobs.symm
  have fresh : v ∉ j.expanded := mt (h.expanded v).1 new
  obtain ⟨r, answer, extended, expanded⟩ :=
    h.booked.expand ready'.linked ready'.value known new depth
  obtain ⟨refs, listed, journal⟩ := Journal.expand_eq_ok (j := j) answer
  obtain ⟨distinct, mem_refs⟩ := (ready'.linked.refsTo side hv).of_eq_ok listed
  have near_refs : ∀ ref ∈ refs, ∃ a, net₀.arc ref = .ok a ∧ side.nearEnd ref a = v := by
    intro ref member
    obtain ⟨a, found, near⟩ := (mem_refs ref).1 member
    obtain ⟨a₀, found₀, near₀, -⟩ := ends_of_alike (P := fun x => x = v) (Q := fun _ => True)
      alike.symm ⟨a, found, near, trivial⟩
    exact ⟨a₀, found₀, near₀⟩
  refine ⟨_, journal, ⟨extended.booked, fun x => ?_, List.nodup_cons.2 ⟨fresh, h.sound.once⟩,
    fun ref member => ?_, ?_, h.sound.finished⟩, extended.later, extended.seenArcs, rfl⟩
  · rw [expanded, List.mem_cons, h.expanded]
  · rcases List.mem_append.1 member with now | old
    · obtain ⟨a, found, near⟩ := near_refs ref (List.mem_reverse.1 now)
      exact ⟨a, found, near ▸ List.mem_cons_self⟩
    · obtain ⟨a, found, near⟩ := h.sound.named ref old
      exact ⟨a, found, List.mem_cons_of_mem _ near⟩
  · -- an arc that was on the queue before has another job at its near end
    refine (List.nodup_reverse.2 distinct).append h.sound.distinct fun ref now old => fresh ?_
    obtain ⟨a, found, near⟩ := near_refs ref (List.mem_reverse.1 now)
    obtain ⟨a', found', near'⟩ := h.sound.named ref old
    rw [found] at found'
    cases found'
    rwa [near] at near'

/-- The first arc of the queue is seen, and it is kept if it was marked. -/
lemma Recorded.keep {net₁ : Network} {rest : List (ArcRef × Nat)} (ready : Explorable net₀ b side)
    (h : Recorded net₀ b side net s j) (queue : s.queue = (ref, depth) :: rest)
    (found : net.arc ref = .ok a)
    (flipped : Flipped ref.place a { a with seen := true } net net₁) :
    (j.keep { s with queue := rest, seenArcs := s.seenArcs ++ [ref] } net₁ b side ref a).AnswersIf
      False fun r => Recorded net₀ b side r.1.2 r.1.1 r.2 ∧ Later s r.1.1 ∧
        r.1.1.seenArcs = s.seenArcs ++ [ref] ∧ r.2.steps = j.steps := by
  have marking := h.booked.marking
  have listed := mem_listedArcs queue
  have known := (marking.ends listed found).1
  have sized := h.booked.sized
  unfold Journal.keep
  by_cases marked : a.marked = true
  · rw [if_pos marked]
    refine (adjustArc_answers (f := fun a => { a with marked := false }) (flipped.arc found)
      rfl).answersIf.bind fun net₂ flipped' => ?_
    have both : Flipped ref.place a { a with marked := false, seen := true } net net₂ :=
      flipped.trans flipped'
    dsimp only
    rw [subCount_of_le (marking.removed_pos found marked), ok_bind]
    have cleared : Recorded net₀ b side net₂
        { s with queue := rest, seenArcs := s.seenArcs ++ [ref], removed := s.removed - 1 } j :=
      ⟨⟨h.booked.alike.trans both.alike, { sized with }, marking.unmark queue found marked both⟩,
        h.expanded, h.sound⟩
    refine (cleared.update ready known).bind ?_
    rintro ⟨s', j'⟩ ⟨h', same, steps⟩
    refine .pure ⟨h', ?_, ?_, steps⟩
    · dsimp only at same ⊢
      rw [same]
      exact ⟨rfl, rfl, fun _ => id⟩
    · dsimp only at same ⊢
      rw [same]
  · rw [if_neg marked]
    have unmarked : a.marked = false := Bool.not_eq_true _ ▸ marked
    exact .pure ⟨⟨⟨h.booked.alike.trans flipped.alike, { sized with },
      marking.see queue found unmarked flipped⟩, h.expanded, h.sound⟩, ⟨rfl, rfl, fun _ => id⟩, rfl, rfl⟩

/-- A visited job is expanded unless it was before, and its bound is settled. -/
lemma Recorded.advance (ready : Explorable net₀ b side) (h : Recorded net₀ b side net s j)
    (known : Visited s.visited v) (depth : Nat) :
    (j.advance s net b side v depth).AnswersIf False fun r => Recorded net₀ b side r.1.2 r.1.1 r.2 ∧
      r.1.1.seenArcs = s.seenArcs ∧ r.2.steps = j.steps := by
  have hv : v < s.expanded.size :=
    lt_of_lt_of_eq (h.booked.sized.lt_of_visited known) h.booked.sized.expanded.symm
  have isExpanded : Visited s.expanded v ↔ s.expanded[v] = true := by
    rw [Visited, Array.getElem?_eq_getElem hv, Option.some_inj]
  have last : ∀ {s₁ : DeletionSearch} {net₁ : Network} {j₁ : Journal},
      Recorded net₀ b side net₁ s₁ j₁ → Later s s₁ → s₁.seenArcs = s.seenArcs → j₁.steps = j.steps →
        (do
          let r ← j₁.update s₁ net₁ b side v
          return ((r.1, net₁), r.2) : Checked ((DeletionSearch × Network) × Journal)).AnswersIf False
            fun r => Recorded net₀ b side r.1.2 r.1.1 r.2 ∧ r.1.1.seenArcs = s.seenArcs ∧
              r.2.steps = j.steps := by
    intro s₁ net₁ j₁ h₁ later seen steps
    refine (h₁.update ready (later.visited v known)).bind ?_
    rintro ⟨s₂, j₂⟩ ⟨h₂, same, steps₂⟩
    refine .pure ⟨h₂, ?_, steps₂.trans steps⟩
    dsimp only at same ⊢
    rw [same]
    exact seen
  unfold Journal.advance
  rw [fetch_of_lt hv, ok_bind]
  split
  · exact last h (.refl s) rfl rfl
  · rename_i new
    refine (h.expand ready known (mt isExpanded.1 new) depth).answersIf.bind ?_
    rintro ⟨⟨s₁, net₁⟩, j₁⟩ ⟨h₁, later, seen, steps⟩
    exact last h₁ later seen steps

/-- A step is written down, and lists one more arc as seen unless it ends the search. -/
lemma Recorded.step (ready : Explorable net₀ b side) (h : Recorded net₀ b side net s j) :
    (j.step s net b side).AnswersIf False fun r => r.2.steps = j.steps + 1 ∧
      match r.1.2 with
      | none => Recorded net₀ b side net r.1.1 r.2
      | some net' => Recorded net₀ b side net' r.1.1 r.2 ∧
          r.1.1.seenArcs.length = s.seenArcs.length + 1 := by
  have sized := h.booked.sized
  unfold Journal.step
  refine h.booked.marking.next.answersIf.bind ?_
  rintro ⟨pruned, found, queue⟩ taken
  have counted : ∀ queue, Marking side net { s with pruned, queue } →
      Recorded net₀ b side net { s with pruned, queue } { j with steps := j.steps + 1 } :=
    fun queue marking => ⟨⟨h.booked.alike, { sized with }, marking⟩, h.expanded, { h.sound with }⟩
  cases found with
  | none => exact .pure ⟨rfl, counted queue taken⟩
  | some entry =>
    obtain ⟨ref, depth, a⟩ := entry
    obtain ⟨found, marking⟩ := taken
    have h₁ := counted _ marking
    dsimp only at found h₁ ⊢
    refine (adjustArc_answers found rfl).answersIf.bind fun net₁ flipped => ?_
    refine (h₁.keep ready rfl found flipped).bind ?_
    rintro ⟨⟨s₂, net₂⟩, j₂⟩ ⟨h₂, later, seen, steps⟩
    have listed : ref ∈ listedArcs { s with pruned, queue := (ref, depth) :: queue } :=
      mem_listedArcs rfl
    have known := later.visited _ (marking.ends listed found).2
    refine (h₂.advance ready known (depth + 1)).bind ?_
    rintro ⟨⟨s₃, net₃⟩, j₃⟩ ⟨h₃, seen₃, steps₃⟩
    refine .pure ⟨steps₃.trans steps, h₃, ?_⟩
    dsimp only at seen seen₃ ⊢
    rw [seen₃, seen, List.length_append]
    rfl

/-! ## What a search considers -/

/-- The rule answers at each stage of a search, unless a number leaves its range. -/
def Considerate (net₀ : Network) (side : Side) (consider : Rule) : Prop :=
  ∀ {net s best}, Booked net₀ side net s → (consider s net best).AnswersIf False fun _ => True

/-- It can be told how far the bound of the root has moved. -/
lemma Booked.moved_answersIf (ready : Explorable net₀ b side) (h : Booked net₀ side net s)
    (hv : root < net₀.numJobs) : (s.moved b side root).AnswersIf False fun _ => True := by
  unfold DeletionSearch.moved
  rw [fetch_valueAt (lt_of_lt_of_eq hv ready.value.symm), ok_bind,
    fetch_valueAt (lt_of_lt_of_eq hv h.sized.current.symm), ok_bind]
  cases side with
  | early => exact (subTime_answersIf False.elim).bind fun _ _ => .pure trivial
  | late => exact (subTime_answersIf False.elim).bind fun _ _ => .pure trivial

/-- A set of arcs has a cost. -/
lemma score_answersIf (s : DeletionSearch) (amount achieved : Int) :
    (s.score amount achieved).AnswersIf False fun _ => True := by
  have counter : ∀ k : Nat, (asCount k).AnswersIf False fun _ => True := fun k =>
    .of_eq_or (asCount_eq_or k) False.elim trivial
  exact (subTime_answersIf False.elim).bind fun _ _ => (counter _).bind fun _ _ => counter _

/-- The marked arcs make up a plan. -/
lemma Booked.plan_answers (h : Booked net₀ side net s) (key : Nat) (achieved : Int) :
    (do return some (key, ← s.plan net achieved) : Checked (Option (Nat × DeletionPlan))).Answers
      fun _ => True := by
  have plan : (s.plan net achieved).Answers fun _ => True :=
    h.marking.markedArcs.bind fun _ _ => .pure trivial
  exact plan.bind fun _ _ => .pure trivial

/-- Plans of the early side are considered. -/
lemma considerate_early (ready : Explorable net₀ b .early) (hv : root < net₀.numJobs) (amount : Int) :
    Considerate net₀ .early (considerEarly b root amount) := by
  intro net s best h
  unfold considerEarly
  refine (h.moved_answersIf ready hv).bind fun achieved _ => ?_
  refine (score_answersIf s amount achieved).bind fun cost _ => ?_
  have present := h.plan_answers cost achieved
  cases best with
  | none => exact present.answersIf
  | some old =>
    dsimp only
    split
    · exact present.answersIf
    · exact .pure trivial

/-- Plans of the late side are considered. -/
lemma considerate_late (ready : Explorable net₀ b .late) (hv : root < net₀.numJobs) (amount : Int) :
    Considerate net₀ .late (considerLate b root amount) := by
  intro net s best h
  unfold considerLate
  refine (h.moved_answersIf ready hv).bind fun achieved _ => ?_
  have present := h.plan_answers s.removed achieved
  cases best with
  | none =>
    dsimp only
    split
    · exact present.answersIf
    · exact .pure trivial
  | some old =>
    dsimp only
    split
    · exact present.answersIf
    · exact .pure trivial

/-! ## Whole searches -/

/-- The first stage is written down. -/
lemma recorded_cut (ready : Explorable net₀ b side) (clean : net₀.flagged = 0)
    (sized : s.Sized net₀.numJobs) (hv : root < net₀.numJobs) :
    (Journal.cut s net₀ b side root).AnswersIf False fun r =>
      Recorded net₀ b side r.1.2 r.1.1 r.2 ∧ r.2.steps = 0 := by
  unfold Journal.cut
  rw [fetch_valueAt (lt_of_lt_of_eq hv ready.base.symm), ok_bind]
  refine (sized.start hv _).answersIf.bind fun s₁ started => ?_
  have h₁ : Recorded net₀ b side net₀ s₁ .blank := ⟨⟨rfl, started.sized, started.marking clean⟩,
    fun v => iff_of_false List.not_mem_nil (started.expanded v), Journal.sound_blank net₀ b side⟩
  have known : Visited s₁.visited root := started.visited.2 rfl
  refine (h₁.expand ready known (started.expanded root) 0).answersIf.bind ?_
  rintro ⟨⟨s₂, net₂⟩, j₂⟩ ⟨h₂, later, -, steps⟩
  refine (h₂.update ready (later.visited root known)).bind ?_
  rintro ⟨s₃, j₃⟩ ⟨h₃, -, steps'⟩
  exact .pure ⟨h₃, steps'.trans steps⟩

/-- Steps are made until none is left, at most one more than there are arcs. -/
lemma Recorded.explore {consider : Rule} (ready : Explorable net₀ b side)
    (considerate : Considerate net₀ side consider) :
    ∀ {fuel : Nat} {j : Journal} {s : DeletionSearch} {net : Network}
      {best : Option (Nat × DeletionPlan)}, Recorded net₀ b side net s j →
        j.steps ≤ s.seenArcs.length → net₀.size < fuel + s.seenArcs.length →
          (Journal.explore b side consider fuel j s net best).AnswersIf False fun r =>
            Recorded net₀ b side r.1.2.1 r.1.1 r.2 ∧ r.2.steps ≤ net₀.size + 1 := by
  have few : ∀ {s net j}, Recorded net₀ b side net s j → s.seenArcs.length ≤ net₀.size := fun h => by
    rw [← h.booked.alike.size ready.linked]
    exact h.booked.marking.seen_le (h.booked.alike.linked ready.linked)
  intro fuel
  induction fuel with
  | zero =>
    intro j s net best h _ enough
    have listed := few h
    omega
  | succ fuel ih =>
    intro j s net best h counted enough
    have listed := few h
    unfold Journal.explore
    refine (h.step ready).bind ?_
    rintro ⟨⟨s', next⟩, j'⟩ ⟨steps, h'⟩
    dsimp only at steps
    cases next with
    | none => exact .pure ⟨h', show j'.steps ≤ net₀.size + 1 by omega⟩
    | some net' =>
      obtain ⟨h', seen⟩ := h'
      dsimp only at seen
      exact (considerate h'.booked).bind fun best' _ => ih h' (by omega) (by omega)

/-- A whole search is written down. -/
lemma recorded_run {consider : Rule} (ready : Explorable net₀ b side) (clean : net₀.flagged = 0)
    (sized : s.Sized net₀.numJobs) (hv : root < net₀.numJobs)
    (considerate : Considerate net₀ side consider) :
    (Journal.run s net₀ b side root consider).AnswersIf False fun r =>
      r.2.Sound net₀ b side ∧ r.2.steps ≤ net₀.size + 1 := by
  unfold Journal.run
  refine (recorded_cut ready clean sized hv).bind ?_
  rintro ⟨⟨s₁, net₁⟩, j₁⟩ ⟨h₁, steps⟩
  refine (considerate h₁.booked).bind fun best _ => ?_
  have rounds : net₀.size < net₁.size + 1 + s₁.seenArcs.length := by
    rw [h₁.booked.alike.size ready.linked]
    omega
  refine (h₁.explore ready considerate (le_of_eq_of_le steps (Nat.zero_le _)) rounds).bind ?_
  rintro ⟨⟨s₂, net₂, best'⟩, j₂⟩ ⟨h₂, few⟩
  dsimp only
  rw [h₂.booked.marking.finish h₂.booked.alike clean, ok_bind]
  exact .pure ⟨h₂.sound, few⟩

/-- Whatever is asked is written down. -/
lemma recorded_ask {q : Query} (ready : Explorable q.network q.bounds q.side)
    (clean : q.network.flagged = 0) (sized : s.Sized q.network.numJobs)
    (hv : q.job < q.network.numJobs) :
    (Journal.ask s q).AnswersIf False fun r =>
      r.2.Sound q.network q.bounds q.side ∧ r.2.steps ≤ q.network.size + 1 := by
  obtain ⟨net, b, side, job, amount⟩ := q
  have nothing : Journal.blank.Sound net b side ∧ Journal.blank.steps ≤ net.size + 1 :=
    ⟨Journal.sound_blank net b side, Nat.zero_le _⟩
  have value := fetch_valueAt (lt_of_lt_of_eq hv ready.value.symm)
  have base := fetch_valueAt (lt_of_lt_of_eq hv ready.base.symm)
  dsimp only at ready clean sized hv value base ⊢
  cases side with
  | early =>
    unfold Journal.ask Bounds.earliestStart
    dsimp only
    split
    · exact .pure nothing
    · rw [show fetch b.early.value job = _ from value, ok_bind,
        show fetch b.early.base job = _ from base, ok_bind]
      split
      · exact .pure nothing
      · exact (recorded_run ready clean sized hv (considerate_early ready hv amount)).bind
          fun r recorded => .pure recorded
  | late =>
    unfold Journal.ask Bounds.latestFinish
    dsimp only
    split
    · exact .pure nothing
    · rw [show fetch b.late.value job = _ from value, ok_bind,
        show fetch b.late.base job = _ from base, ok_bind]
      split
      · exact .pure nothing
      · exact (recorded_run ready clean sized hv (considerate_late ready hv amount)).bind
          fun r recorded => .pure recorded

/-- A deletion search comes to an end, and answers what it answers without a journal, unless a number
leaves its range.  It expands no job twice, puts no arc on the queue twice and makes at most one step
more than there are arcs.  Each time that bounds are settled the worklist becomes empty, and then every
job that was looked at has the bound that its unmarked arcs imply. -/
theorem search_comes_to_an_end {q : Query} (ready : Explorable q.network q.bounds q.side)
    (clean : q.network.flagged = 0) (sized : s.Sized q.network.numJobs)
    (hv : q.job < q.network.numJobs) (fine : s.ask q ≠ .error .overflow) :
    (Journal.ask s q).Answers fun (answer, journal) => s.ask q = .ok answer ∧
      journal.expanded.Nodup ∧ (journal.queued.map ArcRef.place).Nodup ∧
      (∀ ref ∈ journal.queued, ∃ a, q.network.arc ref = .ok a) ∧
      journal.steps ≤ q.network.arcCount + 1 ∧
      ∀ u ∈ journal.settlements, u.Finished q.network q.bounds q.side := by
  have written : Journal.ask s q ≠ .error .overflow := fun stops =>
    fine (Journal.ask_faithful.eq_error stops)
  obtain ⟨⟨answer, journal⟩, told, sound, steps⟩ :=
    (recorded_ask ready clean sized hv).answers_of_ne written
  have named : ∀ ref ∈ journal.queued, ∃ a, q.network.arc ref = .ok a := by
    intro ref member
    obtain ⟨a, found, -⟩ := sound.named ref member
    exact ⟨a, found⟩
  rw [ready.linked.size_eq] at steps
  exact ⟨(answer, journal), told, Journal.ask_faithful.eq_ok told, sound.once,
    nodup_places_of_named sound.distinct named, named, steps, sound.finished⟩

/-- Four jobs and five arcs, of which the first one belongs to the instance. -/
def kite : Network where
  outgoing := #[#[⟨1, 0, 3, true, false, false⟩, ⟨2, 0, 5, false, false, false⟩],
    #[⟨2, 1, 2, false, false, false⟩, ⟨3, 0, 4, false, false, false⟩],
    #[⟨3, 1, 1, false, false, false⟩], #[]]
  incoming := #[#[], #[⟨0, 0⟩], #[⟨0, 1⟩, ⟨1, 0⟩], #[⟨1, 1⟩, ⟨2, 0⟩]]
  arcCount := 5
  generation := 5

/-- Bounds that do not fit together: the first job has a base bound beyond its stored one. -/
def kiteBounds : Bounds where
  durations := #[1, 1, 1, 1]
  early := { limit := #[0, 0, 0, 0], base := #[10, 0, 0, 0], value := #[0, 3, 5, 7], deferred := [] }
  late := { limit := #[30, 30, 30, 30], base := #[30, 30, 30, 30], value := #[22, 25, 29, 30],
            deferred := [] }

/-- All arcs of the kite lead to a later job. -/
lemma kite_linked : kite.Linked ∧ ∀ {u w lag}, kite.HasArc u w lag → u < w := by
  have first : (Network.empty 4).Inserted 0 1 3 true _ :=
    ((linked_empty 4).insert (by decide) (by decide) 3 true).of_eq_ok rfl
  have second : Network.Inserted _ 0 2 5 false _ :=
    (first.linked.insert (by decide) (by decide) 5 false).of_eq_ok rfl
  have third : Network.Inserted _ 1 2 2 false _ :=
    (second.linked.insert (by decide) (by decide) 2 false).of_eq_ok rfl
  have fourth : Network.Inserted _ 1 3 4 false _ :=
    (third.linked.insert (by decide) (by decide) 4 false).of_eq_ok rfl
  have fifth : Network.Inserted _ 2 3 1 false kite :=
    (fourth.linked.insert (by decide) (by decide) 1 false).of_eq_ok (by decide_cbv)
  refine ⟨fifth.linked, fun {u w lag} arc => ?_⟩
  rw [fifth.hasArc_iff, fourth.hasArc_iff, third.hasArc_iff, second.hasArc_iff, first.hasArc_iff,
    or_iff_right (not_hasArc_empty 4)] at arc
  omega

/-- A search in the kite has what it needs. -/
lemma explorable_kite (side : Side) : Explorable kite kiteBounds side where
  linked := kite_linked.1
  acyclic := acyclic_of_lt id kite_linked.2
  durations := rfl
  base := by cases side <;> rfl
  value := by cases side <;> rfl

/-- A search in the kite makes six steps, one more than there are arcs.  The bound of the third job rises
when the first job is looked at, falls when its arcs are marked, and rises again; in the settlement in
which it rises first, two jobs are looked at twice. -/
theorem search_comes_to_an_end_kite :
    Explorable kite kiteBounds .early ∧ kite.flagged = 0 ∧ Sized 4 (empty 4 2 3) ∧
    (empty 4 2 3).ask ⟨kite, kiteBounds, .early, 3, 6⟩ ≠ .error .overflow ∧
    (Journal.ask (empty 4 2 3) ⟨kite, kiteBounds, .early, 3, 6⟩).Answers (fun (answer, journal) =>
      (empty 4 2 3).ask ⟨kite, kiteBounds, .early, 3, 6⟩ = .ok answer ∧
      journal.expanded.Nodup ∧ (journal.queued.map ArcRef.place).Nodup ∧
      (∀ ref ∈ journal.queued, ∃ a, kite.arc ref = .ok a) ∧ journal.steps ≤ 6 ∧
      ∀ u ∈ journal.settlements, u.Finished kite kiteBounds .early) ∧
    (Journal.ask (empty 4 2 3) ⟨kite, kiteBounds, .early, 3, 6⟩).Answers fun r => r.2.steps = 6 ∧
      r.2.expanded = [2, 0, 1, 3] ∧
      r.2.settlements.reverse.map Settlement.looked =
        [[3], [3], [1], [0, 1, 2, 2, 3, 3], [3], [2, 3], [2, 3], [0], [2], [1]] ∧
      r.2.settlements.reverse.map (fun u => valueAt u.after.current 2) =
        [5, 5, 5, 15, 15, 0, 15, 15, 15, 15] := by
  have ready := explorable_kite .early
  have clean : kite.flagged = 0 := by decide +kernel
  have sized := sized_empty 4 2 3
  have fine : (empty 4 2 3).ask ⟨kite, kiteBounds, .early, 3, 6⟩ ≠ .error .overflow := by
    decide +kernel
  exact ⟨ready, clean, sized, fine, search_comes_to_an_end ready clean sized (show 3 < 4 by decide) fine,
    by decide +kernel⟩

end DeletionSearch

end Leveling
