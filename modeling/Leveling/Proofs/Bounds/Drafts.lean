import Leveling.Proofs.Bounds.Exact
import Mathlib.Tactic.IntervalCases

/-!
# Networks and their bounds

The bounds of the jobs are consistent with a network if they are settled on both sides, up to
what is hidden behind a veil for each side.  A pass keeps them consistent, and so does the
insertion of an arc together with the passes from its two ends, as long as the network leaves
room for all jobs afterwards.
-/

namespace Leveling

open Checked Network

variable {F : Frame} {net net' : Network} {b : Bounds} {side : Side} {s t u w : Nat} {lag lag' : Int}
  {permanent : Bool} {hidden hidden' : Side → Nat → Int → Prop} {veiled : Nat → Int → Prop}
  {range : Span} {d : Drain}

/-! ## Tables -/

/-- A table whose limits are those of the frame may be put in. -/
lemma Bounds.Of.withTable (of : b.Of F) {table : BoundTable} (limit : table.limit = F.limit side) :
    (b.withTable side table).Of F where
  durations := by
    rw [← of.durations]
    cases side <;> rfl
  limit side' := by
    by_cases same : side' = side
    · subst same
      rw [table_withTable, limit]
    · rw [table_withTable_of_ne same, of.limit]

/-! ## Consistency -/

/-- The bounds are settled on both sides, and what the latest finishes demand is in the range of
times. -/
structure Consistent (F : Frame) (hidden : Side → Nat → Int → Prop) (net : Network)
    (b : Bounds) : Prop where
  roomy : Roomy F net
  of : b.Of F
  settled : ∀ side, Settled F net side (hidden side) (b.table side)
  fits : Fits F net b.late.value

/-- What the bounds of a side demand is in the range of times. -/
lemma Consistent.fits_table (h : Consistent F hidden net b) :
    side = .late → Fits F net (b.table side).value := by
  rintro rfl
  exact h.fits

/-- If nothing is deferred, no veil is needed. -/
lemma Consistent.unveil (h : Consistent F hidden net b)
    (nothing : ∀ side, (b.table side).deferred = []) (hidden' : Side → Nat → Int → Prop) :
    Consistent F hidden' net b where
  roomy := h.roomy
  of := h.of
  settled side := by
    have settled := h.settled side
    refine ⟨settled.limit, settled.sound, fun u w lag arc stale => ?_, settled.deferred_lt⟩
    exact absurd (settled.arcs (nothing side) arc) (not_le.2 stale)
  fits := h.fits

/-- A table that was tightened may be put in. -/
lemma Consistent.withTable (h : Consistent F hidden net b) {table : BoundTable} {changed : List Nat}
    (tightened : Tightened F net side veiled d (b.table side) table changed) :
    Consistent F (Function.update hidden side veiled) net (b.withTable side table) where
  roomy := h.roomy
  of := h.of.withTable tightened.settled.limit
  settled side' := by
    by_cases same : side' = side
    · subst same
      rw [Bounds.table_withTable, Function.update_self]
      exact tightened.settled
    · rw [Bounds.table_withTable_of_ne same, Function.update_of_ne same]
      exact h.settled side'
  fits := by
    cases side with
    | early => exact h.fits
    | late => exact Fits.rise (fun _ => h.fits) tightened.rise rfl

/-- A pass without seeds keeps the bounds consistent. -/
lemma Consistent.pass (h : Consistent F hidden net b) (veil : Veil F net side range veiled)
    (stays : d = .nothing → ∀ v x, hidden side v x → veiled v x) :
    (b.tighten net side [] d range).Answers fun r => ∃ table, r.1 = b.withTable side table ∧
      Tightened F net side veiled d (b.table side) table r.2 ∧
        Consistent F (Function.update hidden side veiled) net r.1 := by
  refine (tighten_answers h.of h.roomy (h.settled side).primed h.fits_table veil stays).imp ?_
  rintro r ⟨table, same, tightened⟩
  refine ⟨table, same, tightened, ?_⟩
  rw [same]
  exact h.withTable tightened

/-! ## Insertions -/

/-- The first end of an arc in the direction in which a bound of the side travels. -/
def Side.first (side : Side) (source target : Nat) : Nat :=
  match side with
  | .early => source
  | .late => target

/-- A bound travels over the arcs that were there and over the new one. -/
lemma Inserted.leads_iff (inserted : net.Inserted s t lag permanent net') :
    net'.Leads side u w lag' ↔
      net.Leads side u w lag' ∨ (u = side.first s t ∧ w = side.first t s ∧ lag' = lag) := by
  cases side with
  | early => exact inserted.hasArc_iff
  | late =>
    refine inserted.hasArc_iff.trans (or_congr Iff.rfl ?_)
    exact ⟨fun ⟨hw, hu, same⟩ => ⟨hu, hw, same⟩, fun ⟨hu, hw, same⟩ => ⟨hw, hu, same⟩⟩

/-- After an insertion a pass has to start at the end of the new arc. -/
lemma Settled.inserted {table : BoundTable} (settled : Settled F net side veiled table)
    (inserted : net.Inserted s t lag permanent net') (inside : side.first s t < F.size) :
    Primed F net' side veiled [side.first s t] table where
  sound := by
    refine ⟨settled.sound.size, settled.sound.above, fun v => ?_⟩
    obtain ⟨k, len, walk, same⟩ := settled.sound.attained v
    exact ⟨k, len, walk.mono fun arc => (Inserted.leads_iff inserted).2 (.inl arc), same⟩
  remembered u w lag' arc stale := by
    rcases (Inserted.leads_iff inserted).1 arc with old | ⟨rfl, -, -⟩
    · rcases settled.remembered u w lag' old stale with impossible | onStack | isDeferred
      · exact impossible.elim
      · exact absurd onStack List.not_mem_nil
      · exact .inr (.inr isDeferred)
    · exact .inr (.inl List.mem_cons_self)
  seeds_lt v member := by
    rw [List.mem_singleton.1 member]
    exact inside
  deferred_lt := settled.deferred_lt

/-- The demands of the arcs that were there are in the range of times, and so is that of the new one. -/
lemma Fits.inserted {value : Array Int} (fits : Fits F net value)
    (inserted : net.Inserted s t lag permanent net')
    (new : F.boundOf .late s (F.heights .late value t + lag) ≤ greatestTime) :
    Fits F net' value := by
  intro u w lag' arc
  rcases (Inserted.leads_iff inserted).1 arc with old | ⟨rfl, rfl, rfl⟩
  · exact fits old
  · exact new

/-- The pass of the early side after an insertion. -/
lemma Consistent.ahead (h : Consistent F hidden net b) (roomy : Roomy F net')
    (inserted : net.Inserted s t lag permanent net') (hs : s < F.size)
    (veil : Veil F net' .early range veiled)
    (stays : d = .nothing → ∀ v x, hidden .early v x → veiled v x) :
    (b.tighten net' .early [s] d range).Answers fun r => ∃ table, r.1 = b.withTable .early table ∧
      Tightened F net' .early veiled d b.early table r.2 :=
  tighten_answers h.of roomy ((h.settled .early).inserted inserted hs)
    (fun impossible => by cases impossible) veil stays

/-- The pass of the late side after an insertion and the pass of the early side. -/
lemma Consistent.back {table : BoundTable} {changed : List Nat} {d' : Drain}
    (h : Consistent F hidden net b) (hidden' : Side → Nat → Int → Prop) (roomy : Roomy F net')
    (inserted : net.Inserted s t lag permanent net') (ht : t < F.size)
    (tightened : Tightened F net' .early (hidden' .early) d' b.early table changed)
    (fits : F.boundOf .late s (F.heights .late b.late.value t + lag) ≤ greatestTime)
    (veil : Veil F net' .late range (hidden' .late))
    (stays : d = .nothing → ∀ v x, hidden .late v x → hidden' .late v x) :
    ((b.withTable .early table).tighten net' .late [t] d range).Answers fun r =>
      ∃ table', r.1 = (b.withTable .early table).withTable .late table' ∧
        Tightened F net' .late (hidden' .late) d b.late table' r.2 ∧ Consistent F hidden' net' r.1 := by
  have of := h.of.withTable tightened.settled.limit
  have fits' : Fits F net' b.late.value := Fits.inserted h.fits inserted fits
  have primed := (h.settled .late).inserted inserted ht
  refine (tighten_answers of roomy primed (fun _ => fits') veil stays).imp ?_
  rintro r ⟨table', same, tightened'⟩
  refine ⟨table', same, tightened', ?_⟩
  rw [same]
  refine ⟨roomy, of.withTable tightened'.settled.limit, fun side => ?_, ?_⟩
  · cases side with
    | early => exact tightened.settled
    | late => exact tightened'.settled
  · exact Fits.rise (fun _ => fits') tightened'.rise rfl

/-! ## Deletions -/

section

variable {refs : List ArcRef} {targets : List Nat} (h : Consistent F hidden net b)
  (fits : Fits F net F.deadlines) (nothing : ∀ side, (b.table side).deferred = [])
  (deletable : ∀ ref ∈ refs, net.Deletable ref) (deleted : net.Deleted refs net')

include h fits nothing deletable deleted

/-- After a deletion the bounds of the early side are relaxed from the targets on. -/
lemma Consistent.relaxAhead (ends : net.Ends refs .early targets) :
    (b.relax net' .early targets).Answers fun r => ∃ early, r.1 = b.withTable .early early ∧
      Relaxed F net' .early b.early early r.2 := by
  have sub : ∀ {u w lag}, net'.HasArc u w lag → net.HasArc u w lag := fun arc => deleted.hasArc arc
  have ok : Relaxable True F net' .early (b.table .early).value :=
    (h.settled .early).relaxable h.roomy fits deleted.linked deleted.numJobs sub
  exact (relax_answers h.of.durations (h.settled .early) (nothing .early) ok h.roomy.linked deletable
    deleted ends).answers trivial

/-- Then the bounds of the late side are relaxed from the sources on. -/
lemma Consistent.relaxBack {early : BoundTable} {changed : List Nat} (relaxed : Relaxed F net' .early b.early early changed) :
    ((b.withTable .early early).relax net' .late (refs.map ArcRef.source)).Answers fun r =>
      ∃ late, r.1 = (b.withTable .early early).withTable .late late ∧
        Relaxed F net' .late b.late late r.2 ∧ ∀ hidden', Consistent F hidden' net' r.1 := by
  have sub : ∀ {u w lag}, net'.HasArc u w lag → net.HasArc u w lag := fun arc => deleted.hasArc arc
  have of := h.of.withTable (relaxed.settled fun _ _ => False).limit
  have ok : Relaxable True F net' .late (b.table .late).value :=
    (h.settled .late).relaxable h.roomy fits deleted.linked deleted.numJobs sub
  refine ((relax_answers of.durations (h.settled .late) (nothing .late) ok h.roomy.linked deletable
    deleted (ends_sources deletable)).answers trivial).imp ?_
  rintro ⟨bounds, changed'⟩ ⟨late, rfl, relaxed'⟩
  have settled := relaxed'.settled fun _ _ => False
  have fits' : Fits F net' F.deadlines := fun arc => fits (sub arc)
  refine ⟨late, rfl, relaxed', fun hidden' => ⟨h.roomy.of_sub deleted.linked deleted.numJobs sub,
    of.withTable settled.limit, fun side => ?_, Fits.of_above fits' settled.sound.above rfl⟩⟩
  cases side with
  | early => exact relaxed.settled _
  | late => exact relaxed'.settled _

end

/-! ## Drafts -/

/-- A network under construction with the bounds of its jobs. -/
structure Draft where
  network : Network
  bounds : Bounds

/-- The arcs together with one more. -/
def withArc (R : Nat → Nat → Int → Prop) (s t : Nat) (lag : Int) (u w : Nat) (lag' : Int) : Prop :=
  R u w lag' ∨ (u = s ∧ w = t ∧ lag' = lag)

namespace Draft

variable {α : Type} {p : Problem α} {draft : Draft}

/-- The network and the bounds of an instance. -/
def start (p : Problem α) : Checked Draft := do
  return ⟨← Network.ofProblem p, Bounds.ofProblem p⟩

/-- Tightens the bounds of one side from deferred jobs alone. -/
def pass (draft : Draft) (side : Side) (d : Drain) (range : Span) : Checked Draft := do
  let (bounds, _) ← draft.bounds.tighten draft.network side [] d range
  return { draft with bounds }

/-- Inserts an arc and tightens the bounds from its ends, each side with a range of its own. -/
def insert (draft : Draft) (s t : Nat) (lag : Int) (permanent : Bool) (ahead back : Drain × Span) :
    Checked Draft := do
  let network ← draft.network.insert s t lag permanent
  let (bounds, _) ← draft.bounds.tighten network .early [s] ahead.1 ahead.2
  let (bounds, _) ← bounds.tighten network .late [t] back.1 back.2
  return ⟨network, bounds⟩

/-- Deletes arcs and relaxes the bounds at their ends. -/
def delete (draft : Draft) (refs : List ArcRef) : Checked Draft := do
  let targets ← refs.mapM fun ref => do return (← draft.network.arc ref).target
  let network ← draft.network.delete refs
  let (bounds, _) ← draft.bounds.relax network .early targets
  let (bounds, _) ← bounds.relax network .late (refs.map ArcRef.source)
  return ⟨network, bounds⟩

/-- Goes back to the arcs of `base` and to the base bounds. -/
def reset (draft : Draft) (base : Network) : Draft :=
  ⟨draft.network.restore base, draft.bounds.reset⟩

/-- A draft is consistent if its bounds are, and nothing of the base bounds was changed. -/
structure Kept (p : Problem α) (F : Frame) (hidden : Side → Nat → Int → Prop)
    (draft : Draft) : Prop where
  consistent : Consistent F hidden draft.network draft.bounds
  base : ∀ side, (draft.bounds.table side).base = ((Bounds.ofProblem p).table side).base

/-- The base bounds are consistent with the network of an instance. -/
lemma consistent_base (base : p.Base F net) (hidden : Side → Nat → Int → Prop) (of : b.Of F)
    (value : ∀ side, (b.table side).value = ((Bounds.ofProblem p).table side).base)
    (nothing : ∀ side, (b.table side).deferred = []) : Consistent F hidden net b where
  roomy := base.roomy
  of := of
  settled side := by
    refine ⟨of.limit side, value side ▸ base.sound side, fun u w lag arc stale => ?_, ?_⟩
    · rw [value] at stale
      exact absurd stale (not_lt.2 (base.arcs arc))
    · rw [nothing]
      exact fun v member => absurd member List.not_mem_nil
  fits := by
    have late : b.late.value = ((Bounds.ofProblem p).table .late).base := value .late
    rw [late]
    intro u w lag arc
    exact base.fits arc

/-- The network of an instance with its base bounds is consistent. -/
lemma kept_start (base : p.Base F net) (hidden : Side → Nat → Int → Prop) :
    Kept p F hidden ⟨net, Bounds.ofProblem p⟩ where
  consistent := consistent_base base hidden
    ⟨base.durations.symm, fun side => (base.limit side).symm⟩ (fun side => by cases side <;> rfl)
    fun side => by cases side <;> rfl
  base _ := rfl

/-- After going back to the base the draft is consistent. -/
lemma Kept.reset (h : Kept p F hidden draft) (base : p.Base F net)
    (hidden' : Side → Nat → Int → Prop) : Kept p F hidden' (draft.reset net) := by
  have size : draft.network.numJobs = net.numJobs :=
    h.consistent.roomy.size.trans base.roomy.size.symm
  have restored := restore_of_linked h.consistent.roomy.linked base.roomy.linked size
  have base' : p.Base F (draft.network.restore net) := by
    rw [restored]
    exact ⟨base.durations, base.limit, base.edges, ⟨base.roomy.linked.generation _, base.roomy.size,
      base.roomy.acyclic, base.roomy.nonneg, base.roomy.room⟩,
      fun side => ⟨(base.sound side).size, (base.sound side).above, fun v =>
        (base.sound side).attained v⟩, base.arcs, base.fits, base.clean⟩
  refine ⟨consistent_base base' hidden' ⟨h.consistent.of.durations, fun side => ?_⟩ (fun side => ?_)
    (fun side => ?_), fun side => ?_⟩
  · rw [← h.consistent.of.limit side]
    cases side <;> rfl
  · rw [← h.base side]
    cases side <;> rfl
  · cases side <;> rfl
  · rw [← h.base side]
    cases side <;> rfl

/-- A pass keeps a draft consistent. -/
lemma Kept.pass (h : Kept p F hidden draft) (veil : Veil F draft.network side range veiled)
    (stays : d = .nothing → ∀ v x, hidden side v x → veiled v x) :
    (draft.pass side d range).Answers fun draft' => draft'.network = draft.network ∧
      (∃ table, draft'.bounds = draft.bounds.withTable side table ∧
        (d = .everything → table.deferred = [])) ∧
      Kept p F (Function.update hidden side veiled) draft' := by
  unfold Draft.pass
  refine (h.consistent.pass veil stays).bind ?_
  rintro ⟨bounds, changed⟩ ⟨table, rfl, tightened, consistent⟩
  refine .pure ⟨rfl, ⟨table, rfl, tightened.drained⟩, consistent, fun side' => ?_⟩
  rw [← h.base side']
  by_cases same : side' = side
  · subst same
    rw [Bounds.table_withTable, tightened.base]
  · rw [Bounds.table_withTable_of_ne same]

variable {ahead back : Drain × Span}

/-- The arcs after an insertion. -/
lemma hasArc_inserted (inserted : net.Inserted s t lag permanent net') :
    net'.HasArc = withArc net.HasArc s t lag := by
  funext u w lag'
  exact propext inserted.hasArc_iff

/-- Arcs that fit the instance leave room after their insertion. -/
lemma Kept.roomy_insert {built : p.Built} {timely : p.Timely}
    {hidden : Side → Nat → Int → Prop} (h : Kept p (built.frame timely) hidden draft) (nonneg : 0 ≤ lag)
    (fitting : p.Fitting (withArc draft.network.HasArc s t lag)) (net' : Network)
    (inserted : draft.network.Inserted s t lag permanent net') : Roomy (built.frame timely) net' := by
  have roomy := h.consistent.roomy
  rw [← hasArc_inserted inserted] at fitting
  refine fitting.roomy built timely inserted.linked ?_ fun arc => ?_
  · rw [inserted.numJobs, roomy.size, built.size_frame timely]
  · rcases inserted.hasArc_iff.1 arc with old | ⟨-, -, rfl⟩
    · exact roomy.nonneg old
    · exact nonneg

/-- An insertion keeps a draft consistent if it leaves room and demands no more than a time. -/
lemma Kept.insert (h : Kept p F hidden draft) (hs : s < F.size) (ht : t < F.size)
    (roomy : ∀ net', draft.network.Inserted s t lag permanent net' → Roomy F net')
    (fits : F.boundOf .late s (F.heights .late draft.bounds.late.value t + lag) ≤ greatestTime)
    (veil_early : ∀ net', draft.network.Inserted s t lag permanent net' →
      Veil F net' .early ahead.2 (hidden' .early))
    (veil_late : ∀ net', draft.network.Inserted s t lag permanent net' →
      Veil F net' .late back.2 (hidden' .late))
    (stays_early : ahead.1 = .nothing → ∀ v x, hidden .early v x → hidden' .early v x)
    (stays_late : back.1 = .nothing → ∀ v x, hidden .late v x → hidden' .late v x) :
    (draft.insert s t lag permanent ahead back).Answers fun draft' =>
      draft'.network.edges = ⟨s, t, lag, permanent⟩ ::ₘ draft.network.edges ∧
        Kept p F hidden' draft' := by
  have consistent := h.consistent
  have size := consistent.roomy.size
  unfold Draft.insert
  refine (consistent.roomy.linked.insert (size ▸ hs) (size ▸ ht) lag permanent).bind ?_
  intro net' inserted
  refine (consistent.ahead (roomy net' inserted) inserted hs (veil_early net' inserted)
    stays_early).bind ?_
  rintro ⟨bounds, changed⟩ ⟨table, rfl, tightened⟩
  refine (consistent.back hidden' (roomy net' inserted) inserted ht tightened fits
    (veil_late net' inserted) stays_late).bind ?_
  rintro ⟨bounds', changed'⟩ ⟨table', rfl, tightened', consistent'⟩
  refine .pure ⟨inserted.edges, consistent', fun side => ?_⟩
  rw [← h.base side]
  cases side with
  | early => exact tightened.base
  | late => exact tightened'.base

/-- An insertion that demands more than a time overflows. -/
lemma Kept.insert_overflow (h : Kept p F hidden draft) (hs : s < F.size) (ht : t < F.size)
    (roomy : ∀ net', draft.network.Inserted s t lag permanent net' → Roomy F net')
    (exceeds :
      greatestTime < F.boundOf .late s (F.heights .late draft.bounds.late.value t + lag)) :
    draft.insert s t lag permanent ahead back = .error .overflow := by
  have consistent := h.consistent
  have size := consistent.roomy.size
  obtain ⟨net', answer, inserted⟩ :=
    consistent.roomy.linked.insert (size ▸ hs) (size ▸ ht) lag permanent
  obtain ⟨⟨_, changed⟩, answer', table, rfl, tightened⟩ :=
    consistent.ahead (d := ahead.1) (roomy net' inserted) inserted hs
      (veil_all F net' .early ahead.2) fun _ _ _ _ => trivial
  have arc : net'.Leads .late t s lag := (Inserted.leads_iff inserted).2 (.inr ⟨rfl, rfl, rfl⟩)
  have primed : Primed F net' .late (hidden .late) ([] ++ [t]) draft.bounds.late :=
    (consistent.settled .late).inserted inserted ht
  have overflow : (draft.bounds.withTable .early table).tighten net' .late [t] back.1 back.2 =
      .error .overflow :=
    tighten_overflow (consistent.of.withTable tightened.settled.limit) (roomy net' inserted) primed
      (veil_all F net' .late back.2) (fun _ _ _ _ => trivial) arc exceeds
  unfold Draft.insert
  rw [answer, ok_bind, answer', ok_bind]
  dsimp only
  rw [overflow, error_bind]

/-- Deleting arcs keeps a draft consistent if nothing is deferred. -/
lemma Kept.delete {refs : List ArcRef} (h : Kept p F hidden draft)
    (fits : Fits F draft.network F.deadlines)
    (nothing : ∀ side, (draft.bounds.table side).deferred = [])
    (deletable : ∀ ref ∈ refs, draft.network.Deletable ref)
    (hidden' : Side → Nat → Int → Prop) :
    (draft.delete refs).Answers fun draft' => draft.network.Deleted refs draft'.network ∧
      (∀ side, (draft'.bounds.table side).deferred = []) ∧ Kept p F hidden' draft' := by
  have consistent := h.consistent
  unfold Draft.delete
  refine (nearEnds_answers .early deletable).bind fun targets ends => ?_
  refine (consistent.roomy.linked.delete deletable).bind fun net' deleted => ?_
  refine (consistent.relaxAhead fits nothing deletable deleted ends).bind ?_
  rintro ⟨bounds, changed⟩ ⟨early, rfl, relaxed⟩
  refine (consistent.relaxBack fits nothing deletable deleted relaxed).bind ?_
  rintro ⟨bounds', changed'⟩ ⟨late, rfl, relaxed', consistent'⟩
  refine .pure ⟨deleted, fun side => ?_, consistent' hidden', fun side => ?_⟩
  · cases side with
    | early => exact relaxed.nothing
    | late => exact relaxed'.nothing
  · rw [← h.base side]
    cases side with
    | early => exact relaxed.base
    | late => exact relaxed'.base

/-! ## A small instance -/

/-- A long job, a job that is released late, and one that waits for it. -/
def chain : Problem Float where
  jobs := #[⟨12, 0, 50, []⟩, ⟨2, 10, 50, []⟩, ⟨2, 0, 50, []⟩]
  resources := []
  precedences := [⟨1, 2, 2⟩]
  order := [0, 1, 2]
  earliestStart := #[0, 10, 12]
  latestFinish := #[50, 48, 50]

/-- The chain is accepted. -/
lemma chain_accepted : (Problem.build chain.jobs [] [⟨1, 2, 2⟩]).Accepts chain := by cbv

/-- The deadlines of the chain are times. -/
lemma chain_timely : chain.Timely := by
  intro job member
  simp only [chain, List.mem_cons, List.not_mem_nil, or_false] at member
  rcases member with rfl | rfl | rfl <;> decide

/-- The draft of the chain has one arc. -/
lemma start_chain {draft : Draft} (started : start chain = .ok draft) :
    (∀ {u w lag}, draft.network.HasArc u w lag ↔ u = 1 ∧ w = 2 ∧ lag = 2) ∧
      draft.bounds.late.value = #[50, 48, 50] := by
  obtain ⟨net, answer, -, -, edges, -⟩ := (Problem.built_of_build chain_accepted).arranged.network
  unfold start at started
  rw [answer] at started
  cases started
  refine ⟨fun {u w lag} => ?_, rfl⟩
  rw [Problem.hasArc_of_edges edges]
  simp [chain]

/-- The first job of the chain may be put in front of the second one. -/
lemma chain_fitting {R : Nat → Nat → Int → Prop}
    (arcs : ∀ {u w lag}, R u w lag ↔ u = 1 ∧ w = 2 ∧ lag = 2) :
    chain.Fitting (withArc R 0 1 12) := by
  have all : ∀ {u w lag}, withArc R 0 1 12 u w lag ↔
      (u = 1 ∧ w = 2 ∧ lag = 2) ∨ (u = 0 ∧ w = 1 ∧ lag = 12) := or_congr arcs Iff.rfl
  refine .of_solves (x := fun v => if v = 1 then 12 else if v = 2 then 14 else 0)
    (acyclic_of_lt id fun arc => ?_) (fun arc => ?_) (fun v hv => ?_) (fun v hv => ?_)
  · rcases all.1 arc with ⟨rfl, rfl, -⟩ | ⟨rfl, rfl, -⟩ <;> decide
  · rcases all.1 arc with ⟨rfl, -⟩ | ⟨rfl, -⟩ <;> decide
  · have hv : v < 3 := hv
    simp only [all]
    interval_cases v
    · refine ⟨.inl (by decide_cbv), ?_⟩
      rintro y (rfl | ⟨u, lag, ⟨-, impossible, -⟩ | ⟨-, impossible, -⟩, -⟩)
      · decide_cbv
      · cases impossible
      · cases impossible
    · refine ⟨.inr ⟨0, 12, .inr ⟨rfl, rfl, rfl⟩, rfl⟩, ?_⟩
      rintro y (rfl | ⟨u, lag, ⟨-, impossible, -⟩ | ⟨rfl, -, rfl⟩, rfl⟩)
      · decide_cbv
      · cases impossible
      · decide
    · refine ⟨.inr ⟨1, 2, .inl ⟨rfl, rfl, rfl⟩, rfl⟩, ?_⟩
      rintro y (rfl | ⟨u, lag, ⟨rfl, -, rfl⟩ | ⟨-, impossible, -⟩, rfl⟩)
      · decide_cbv
      · decide
      · cases impossible
  · have hv : v < 3 := hv
    interval_cases v <;> decide_cbv

end Draft

end Leveling
