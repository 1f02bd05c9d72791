import Leveling.Proofs.Search.Reuse
import Leveling.Proofs.Search.Worklists

/-!
# Journals of deletion searches

What a deletion search has done cannot be read off its answer.  A search that keeps a *journal* writes
down which jobs it expands, which arcs it puts on the queue, how many steps it makes, and each settlement
of bounds: what the bounds were before and after it, and which jobs were looked at.

Each function of the search is given here once more, with a journal at its side.  The journal is written
but never read, so the search answers what it answers without one, and stops with the same faults.
-/

namespace Leveling

open Checked Network

namespace DeletionSearch

/-- How the bound of a job and those that depend on it were settled. -/
structure Settlement where
  network : Network
  before : DeletionSearch
  job : Nat
  /-- The jobs in the order in which they were looked at. -/
  looked : List Nat
  after : DeletionSearch

/-- What a search has done, the latest first. -/
structure Journal where
  expanded : List Nat
  queued : List ArcRef
  steps : Nat
  settlements : List Settlement

namespace Journal

/-- Nothing has been done yet. -/
def blank : Journal := ⟨[], [], 0, []⟩

variable {net : Network} {b : Bounds} {side : Side} {s : DeletionSearch} {j : Journal} {v root depth : Nat}
  {ref : ArcRef} {arc : Arc} {β γ δ : Type}

/-! ## Searches with a journal -/

/-- Computes the bound of a job anew, and those that depend on it. -/
def update (j : Journal) (s : DeletionSearch) (net : Network) (b : Bounds) (side : Side) (v : Nat) :
    Checked (DeletionSearch × Journal) := do
  let (after, looked) ← s.settleListing net b side net.walkBound [v]
  return (after, { j with settlements := ⟨net, s, v, looked, after⟩ :: j.settlements })

/-- Puts an arc on the queue, and marks it if it can be deleted. -/
def enqueue (b : Bounds) (side : Side) (depth : Nat) (x : (DeletionSearch × Network) × Journal)
    (ref : ArcRef) : Checked ((DeletionSearch × Network) × Journal) := do
  let r ← x.1.1.enqueue b side depth x.1.2 ref
  return (r, { x.2 with queued := ref :: x.2.queued })

/-- Puts the arcs one level further out from a job on the queue. -/
def expand (j : Journal) (s : DeletionSearch) (net : Network) (b : Bounds) (side : Side)
    (v depth : Nat) : Checked ((DeletionSearch × Network) × Journal) := do
  let expanded ← store s.expanded v true
  let refs ← net.refsTo side v
  refs.foldlM (enqueue b side depth)
    (({ s with expanded }, net), { j with expanded := v :: j.expanded })

/-- Keeps the arc of a step if it was marked. -/
def keep (j : Journal) (s : DeletionSearch) (net : Network) (b : Bounds) (side : Side) (ref : ArcRef)
    (arc : Arc) : Checked ((DeletionSearch × Network) × Journal) := do
  if arc.marked then
    let net ← net.adjustArc ref fun a => { a with marked := false }
    let removed ← subCount s.removed 1
    let (s, j) ← j.update { s with removed } net b side (side.nearEnd ref arc)
    return ((s, net), j)
  else return ((s, net), j)

/-- Expands a job unless it was expanded before, and computes its bound anew. -/
def advance (j : Journal) (s : DeletionSearch) (net : Network) (b : Bounds) (side : Side)
    (v depth : Nat) : Checked ((DeletionSearch × Network) × Journal) := do
  let ((s, net), j) ←
    if ← fetch s.expanded v then pure ((s, net), j) else j.expand s net b side v depth
  let (s, j) ← j.update s net b side v
  return ((s, net), j)

/-- A step of the search; nothing if the queue holds no arc to look at any more. -/
def step (j : Journal) (s : DeletionSearch) (net : Network) (b : Bounds) (side : Side) :
    Checked ((DeletionSearch × Option Network) × Journal) := do
  let j := { j with steps := j.steps + 1 }
  let (pruned, found, queue) ← nextArc net s.maxDepth s.pruned s.queue
  let s := { s with pruned, queue }
  match found with
  | none => return ((s, none), j)
  | some (ref, depth, arc) =>
    let net ← net.adjustArc ref fun a => { a with seen := true }
    let ((s, net), j) ← j.keep { s with seenArcs := s.seenArcs ++ [ref] } net b side ref arc
    let ((s, net), j) ← j.advance s net b side (side.farEnd ref arc) (depth + 1)
    return ((s, some net), j)

/-- The first stage of a search, in which the arcs at the root are marked. -/
def cut (s : DeletionSearch) (net : Network) (b : Bounds) (side : Side) (root : Nat) :
    Checked ((DeletionSearch × Network) × Journal) := do
  let s ← s.start root (← fetch (b.table side).base root)
  let ((s, net), j) ← blank.expand s net b side root 0
  let (s, j) ← j.update s net b side root
  return ((s, net), j)

/-- Makes steps until none is left and picks the best plan. -/
def explore (b : Bounds) (side : Side) (consider : Rule) :
    (fuel : Nat) → Journal → DeletionSearch → Network → Option (Nat × DeletionPlan) →
      Checked ((DeletionSearch × Network × Option (Nat × DeletionPlan)) × Journal)
  | 0, _, _, _, _ => .error .unsettled
  | fuel + 1, j, s, net, best => do
    let ((s, next), j) ← j.step s net b side
    match next with
    | none => return ((s, net, best), j)
    | some net =>
      let best ← consider s net best
      explore b side consider fuel j s net best

/-- A whole search with a root. -/
def run (s : DeletionSearch) (net : Network) (b : Bounds) (side : Side) (root : Nat)
    (consider : Rule) :
    Checked ((Option (Nat × DeletionPlan) × DeletionSearch × Network) × Journal) := do
  let ((s, net), j) ← cut s net b side root
  let best ← consider s net none
  let ((s, net, best), j) ← explore b side consider (net.size + 1) j s net best
  let (s, net) ← s.finish net
  return ((best, s, net), j)

/-- Asks one search. -/
def ask (s : DeletionSearch) (q : Query) :
    Checked ((Option DeletionPlan × DeletionSearch × Network) × Journal) :=
  match q.side with
  | .early => do
    if q.amount ≤ 0 then return ((some .none, s, q.network), blank)
    if (← q.bounds.earliestStart q.job) = (← fetch q.bounds.early.base q.job) then
      return ((some .none, s, q.network), blank)
    let ((best, s, net), j) ←
      run s q.network q.bounds .early q.job (considerEarly q.bounds q.job q.amount)
    return ((some ((best.map Prod.snd).getD .none), s, net), j)
  | .late => do
    if q.amount ≤ 0 then return ((some .none, s, q.network), blank)
    if (← q.bounds.latestFinish q.job) = (← fetch q.bounds.late.base q.job) then
      return ((none, s, q.network), blank)
    let ((best, s, net), j) ←
      run s q.network q.bounds .late q.job (considerLate q.bounds q.job q.amount)
    return ((best.map Prod.snd, s, net), j)

/-! ## Journals are never read -/

/-- A computation with a journal answers what the computation without one answers, and stops with the same
faults. -/
def Faithful (x : Checked (β × Journal)) (y : Checked β) : Prop := Matches (fun r b => r.1 = b) x y

section

variable {x : Checked (β × Journal)} {y : Checked β} {f : β × Journal → Checked (γ × Journal)}
  {g : β → Checked γ}

/-- An answer with a journal. -/
lemma Faithful.pure {c : β} : Faithful (Pure.pure (c, j)) (Pure.pure c) := rfl

/-- Two computations in a row. -/
lemma Faithful.bind (h : Faithful x y) (hf : ∀ c j, Faithful (f (c, j)) (g c)) :
    Faithful (x >>= f) (y >>= g) := by
  refine Matches.bind h ?_
  rintro ⟨c, j⟩ d - - same
  obtain rfl : c = d := same
  exact hf c j

/-- A computation in front that needs no journal. -/
lemma Faithful.bind_same {z : Checked δ} {f : δ → Checked (γ × Journal)} {g : δ → Checked γ}
    (hf : ∀ d, z = .ok d → Faithful (f d) (g d)) : Faithful (z >>= f) (z >>= g) :=
  Matches.bind_same hf

/-- What a computation with a journal answers is the answer without one. -/
lemma Faithful.eq_ok (h : Faithful x y) {r : β × Journal} (answer : x = .ok r) : y = .ok r.1 := by
  subst answer
  cases y with
  | ok c => exact congrArg _ (Eq.symm h)
  | error fault => exact h.elim

/-- A computation with a journal stops with the fault of the computation without one. -/
lemma Faithful.eq_error (h : Faithful x y) {fault : Fault} (stops : x = .error fault) :
    y = .error fault := by
  subst stops
  cases y with
  | ok c => exact h.elim
  | error fault' => exact congrArg _ (Eq.symm h)

/-- What is known of the answer of a computation with a journal is known without one. -/
lemma Faithful.answersIf {safe : Prop} {P : β → Prop} (h : Faithful x y)
    (hx : x.AnswersIf safe fun r => P r.1) : y.AnswersIf safe P := by
  rcases hx with ⟨r, answer, holds⟩ | ⟨notSafe, stops⟩
  · exact .inl ⟨r.1, h.eq_ok answer, holds⟩
  · exact .inr ⟨notSafe, h.eq_error stops⟩

/-- If a computation answers, there is a journal of it. -/
lemma Faithful.exists_journal (h : Faithful x y) {c : β} (answer : y = .ok c) :
    ∃ j, x = .ok (c, j) := by
  subst answer
  cases x with
  | ok r =>
    obtain ⟨d, j⟩ := r
    obtain rfl : d = c := h
    exact ⟨j, rfl⟩
  | error fault => exact h.elim

end

/-- The bounds are settled as without a journal. -/
lemma update_faithful : Faithful (j.update s net b side v) (s.update net b side v) :=
  settleListing_matches.map_left fun _ _ => id

/-- The arcs are put on the queue as without a journal, and all of them are written down. -/
lemma enqueue_all {refs : List ArcRef} :
    ∀ {x : (DeletionSearch × Network) × Journal}, refs.foldlM (enqueue b side depth) x = (do
      let r ← refs.foldlM (fun (s, net) ref => s.enqueue b side depth net ref) x.1
      return (r, { x.2 with queued := refs.reverse ++ x.2.queued })) := by
  induction refs with
  | nil => exact rfl
  | cons ref rest ih =>
    intro x
    rw [List.foldlM_cons, List.foldlM_cons, enqueue, bind_assoc, bind_assoc]
    refine bind_congr fun r => ?_
    rw [pure_bind, ih, List.reverse_cons, List.append_assoc]
    rfl

/-- A job is expanded as without a journal. -/
lemma expand_faithful : Faithful (j.expand s net b side v depth) (s.expand net b side v depth) := by
  unfold expand DeletionSearch.expand
  refine Faithful.bind_same fun expanded _ => Faithful.bind_same fun refs _ => ?_
  rw [enqueue_all]
  exact Matches.map_left .refl fun _ _ => id

/-- If a job is expanded, all arcs that can be reached next from it are written down. -/
lemma expand_eq_ok {r : DeletionSearch × Network} (answer : s.expand net b side v depth = .ok r) :
    ∃ refs, net.refsTo side v = .ok refs ∧ j.expand s net b side v depth =
      .ok (r, { j with expanded := v :: j.expanded, queued := refs.reverse ++ j.queued }) := by
  unfold DeletionSearch.expand at answer
  obtain ⟨expanded, stored, answer⟩ := bind_eq_ok.1 answer
  obtain ⟨refs, listed, answer⟩ := bind_eq_ok.1 answer
  refine ⟨refs, listed, ?_⟩
  unfold expand
  rw [stored, ok_bind, listed, ok_bind, enqueue_all]
  dsimp only at answer ⊢
  rw [answer, ok_bind]
  rfl

/-- The arc of a step is kept as without a journal. -/
lemma keep_faithful : Faithful (j.keep s net b side ref arc) (s.keep net b side ref arc) := by
  unfold keep DeletionSearch.keep
  split
  · refine Faithful.bind_same fun net' _ => Faithful.bind_same fun removed _ => ?_
    exact update_faithful.bind fun s' j' => .pure
  · exact .pure

/-- A step is made as without a journal. -/
lemma step_faithful : Faithful (j.step s net b side) (s.step net b side) := by
  unfold step DeletionSearch.step
  refine Faithful.bind_same fun taken _ => ?_
  obtain ⟨pruned, found, queue⟩ := taken
  cases found with
  | none => exact .pure
  | some entry =>
    obtain ⟨ref, depth, arc⟩ := entry
    refine Faithful.bind_same fun net₁ _ => ?_
    refine keep_faithful.bind ?_
    rintro ⟨s₂, net₂⟩ j₂
    unfold advance
    simp only [bind_assoc]
    refine Faithful.bind_same fun known _ => ?_
    split
    · simp only [pure_bind, bind_assoc]
      exact update_faithful.bind fun s₃ j₃ => .pure
    · simp only [bind_assoc]
      refine expand_faithful.bind ?_
      rintro ⟨s₃, net₃⟩ j₃
      exact update_faithful.bind fun s₄ j₄ => .pure

/-- A search begins as without a journal. -/
lemma cut_faithful : Faithful (cut s net b side root) (s.cut net b side root) := by
  unfold cut DeletionSearch.cut
  refine Faithful.bind_same fun base _ => Faithful.bind_same fun s₁ _ => ?_
  refine expand_faithful.bind ?_
  rintro ⟨s₂, net₂⟩ j₂
  exact update_faithful.bind fun s₃ j₃ => .pure

/-- The rounds of a search are made as without a journal. -/
lemma explore_faithful {consider : Rule} :
    ∀ {fuel : Nat} {j : Journal} {s : DeletionSearch} {net : Network}
      {best : Option (Nat × DeletionPlan)}, Faithful (explore b side consider fuel j s net best)
        (DeletionSearch.explore b side consider fuel s net best) := by
  intro fuel
  induction fuel with
  | zero => exact rfl
  | succ fuel ih =>
    intro j s net best
    unfold explore DeletionSearch.explore
    refine step_faithful.bind ?_
    rintro ⟨s', next⟩ j'
    cases next with
    | none => exact .pure
    | some net' => exact Faithful.bind_same fun best' _ => ih

/-- A whole search is made as without a journal. -/
lemma run_faithful {consider : Rule} :
    Faithful (run s net b side root consider) (s.run net b side root consider) := by
  rw [run_eq]
  unfold run
  refine cut_faithful.bind ?_
  rintro ⟨s₁, net₁⟩ j₁
  refine Faithful.bind_same fun best _ => ?_
  refine explore_faithful.bind ?_
  rintro ⟨s₂, net₂, best'⟩ j₂
  exact Faithful.bind_same fun r _ => .pure

/-- A search is asked as without a journal. -/
lemma ask_faithful {q : Query} : Faithful (ask s q) (s.ask q) := by
  obtain ⟨net, b, side, job, amount⟩ := q
  cases side with
  | early =>
    unfold ask DeletionSearch.ask backward
    dsimp only
    split
    · exact .pure
    · simp only [bind_assoc]
      refine Faithful.bind_same fun stored _ => Faithful.bind_same fun base _ => ?_
      split
      · exact .pure
      · simp only [bind_assoc]
        refine run_faithful.bind ?_
        rintro ⟨best, s', net'⟩ j
        exact .pure
  | late =>
    unfold ask DeletionSearch.ask forward
    dsimp only
    split
    · exact .pure
    · refine Faithful.bind_same fun stored _ => Faithful.bind_same fun base _ => ?_
      split
      · exact .pure
      · refine run_faithful.bind ?_
        rintro ⟨best, s', net'⟩ j
        exact .pure

end Journal

end DeletionSearch

end Leveling
