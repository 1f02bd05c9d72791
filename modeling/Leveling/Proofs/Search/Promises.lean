import Leveling.Proofs.Bounds.Drafts
import Leveling.Proofs.Search.Plans

/-!
# What deletion plans promise

A deletion search computes bounds for the jobs that it has visited only, and takes the stored bounds
for the others.  So what it finds is an estimate.  It errs on one side only: at every stage the bound
of each job is at least as tight, up to its stored bound, as every walk over unmarked arcs demands.
After the marked arcs were deleted the exact bounds are no tighter than that, and so the root moves at
least as far as the plan has promised.

The amounts of the two sides are treated differently.  A plan of the early side may fall short, and it
has the least cost of all stages.  A plan of the late side reaches the amount, and there is none only if
no stage reaches it.
-/

namespace Leveling

open Checked Network

/-! ## The arcs that are left -/

namespace Network

variable {net₀ net net' : Network} {side : Side} {refs : List ArcRef} {u w : Nat} {lag : Int}

/-- An edge that is left after a deletion belongs to an arc that no handle has named. -/
lemma Deleted.exists_kept (deleted : net.Deleted refs net') {e : Edge} (member : e ∈ net'.edges) :
    ∃ ref a, net.arc ref = .ok a ∧ a.edge ref.source = e ∧ ref ∉ refs := by
  by_contra all
  -- otherwise the edge would occur as often among those that were named as among all
  let named : ArcRef → Bool := fun ref =>
    (((entryAt net.outgoing ref.place).map (Arc.edge ref.source)).map (· == e)).getD false
  have there : net.edges.count e ≤ (refs.dedup.filter named).length := by
    have distinct : (((entries net.outgoing).filter fun x => x.2.2.edge x.1 == e).map
        fun x => net.refAt (placeOf x)).Nodup := by
      refine List.Nodup.map_on (fun x hx y hy same => ?_)
        ((List.Nodup.of_map placeOf (nodup_places net.outgoing)).filter _)
      have place : placeOf x = placeOf y := congrArg ArcRef.place same
      obtain ⟨v, i, a⟩ := x
      obtain ⟨v', i', a'⟩ := y
      obtain ⟨rfl, rfl⟩ := Prod.mk.inj place
      have entry := mem_entries.1 (List.mem_filter.1 hx).1
      have entry' := mem_entries.1 (List.mem_filter.1 hy).1
      rw [entry] at entry'
      rw [Option.some.inj entry']
    have among : ∀ ref ∈ ((entries net.outgoing).filter fun x => x.2.2.edge x.1 == e).map
        fun x => net.refAt (placeOf x), ref ∈ refs.dedup.filter named := by
      intro ref listed
      obtain ⟨⟨v, i, a⟩, inside, rfl⟩ := List.mem_map.1 listed
      obtain ⟨entry, same⟩ := List.mem_filter.1 inside
      have found : net.arc (net.refAt (v, i)) = .ok a := arc_refAt.2 (mem_entries.1 entry)
      have edge : a.edge v = e := eq_of_beq same
      have isNamed : net.refAt (v, i) ∈ refs := by
        by_contra fresh
        exact all ⟨_, a, found, edge, fresh⟩
      refine List.mem_filter.2 ⟨List.mem_dedup.2 isNamed, ?_⟩
      have place := (arc_eq_ok.1 found).2
      have source : a.edge (net.refAt (placeOf (v, i, a))).source = e := edge
      dsimp only [named]
      rw [show (net.refAt (placeOf (v, i, a))).place = (net.refAt (v, i)).place from rfl, place,
        Option.map_some, Option.map_some, Option.getD_some, source]
      exact beq_self_eq_true e
    have fewer := (distinct.subperm among).length_le
    rw [List.length_map, ← List.countP_eq_length_filter] at fewer
    rwa [count_edges, ← countP_entries]
  have gone : (net.denoted refs).count e = (refs.dedup.filter named).length := by
    rw [denoted, Multiset.coe_count, List.count, List.countP_filterMap,
      List.countP_eq_length_filter]
  have left := Multiset.count_pos.2 member
  have split : net'.edges.count e + (net.denoted refs).count e = net.edges.count e := by
    rw [← Multiset.count_add, deleted.edges]
  omega

/-- If all marked arcs are deleted, only unmarked ones are left. -/
lemma Deleted.unmarked (deleted : net₀.Deleted refs net') (alike : Alike net₀ net)
    (covers : ∀ ref a, net.arc ref = .ok a → a.marked = true → ref ∈ refs)
    (arc : net'.Leads side u w lag) : net.Unmarked side u w lag := by
  have kept : ∀ {u w}, net'.HasArc u w lag → ∃ ref a, net.arc ref = .ok a ∧ a.marked = false ∧
      ref.source = u ∧ a.target = w ∧ a.lag = lag := by
    rintro u w ⟨permanent, member⟩
    obtain ⟨ref, a₀, found₀, edge, fresh⟩ := deleted.exists_kept member
    obtain ⟨source, target, same, -⟩ := Edge.mk.inj edge
    obtain ⟨a, found, bare⟩ := alike.arc found₀
    have sameTarget : a.bare.target = a₀.bare.target := congrArg Arc.target bare
    have sameLag : a.bare.lag = a₀.bare.lag := congrArg Arc.lag bare
    exact ⟨ref, a, found, Bool.not_eq_true _ ▸ fun marked => fresh (covers ref a found marked),
      source, Eq.trans sameTarget target, Eq.trans sameLag same⟩
  cases side with
  | early =>
    obtain ⟨ref, a, found, unmarked, rfl, rfl, same⟩ := kept arc
    have step : net.Step .early ref.source a.target a := step_of_arc found
    exact ⟨a, step, unmarked, same⟩
  | late =>
    obtain ⟨ref, a, found, unmarked, rfl, rfl, same⟩ := kept arc
    have step : net.Step .late a.target ref.source a := step_of_arc found
    exact ⟨a, step, unmarked, same⟩

end Network

/-! ## Estimates -/

namespace DeletionSearch

variable {F : Frame} {net₀ net net' : Network} {b : Bounds} {side : Side} {top : Nat → Int}
  {safe : Prop} {s : DeletionSearch} {root k v : Nat} {len : Int} {value : Array Int}
  {plan : DeletionPlan} {refs : List ArcRef} {hidden : Nat → Int → Prop}

/-- The base bounds are at least as tight as the limits. -/
def BaseAbove (F : Frame) (b : Bounds) (side : Side) : Prop :=
  ∀ v, F.floor side v ≤ F.heights side (b.table side).base v

/-- At a stage of a search no bound is looser both than its stored bound and than its base bound. -/
lemma Searching.le_heightIn (h : Searching safe F net₀ b side top [] net s) (v : Nat) :
    min (F.heights side (b.table side).value v) (F.heights side (b.table side).base v) ≤
      s.heightIn F b side v := by
  by_cases known : Visited s.visited v
  · rcases h.enough v known List.not_mem_nil with above | upper
    · exact (min_le_left _ _).trans above
    · exact (min_le_right _ _).trans (upper (.inl rfl))
  · refine (min_le_left _ _).trans (le_of_eq ?_)
    unfold DeletionSearch.heightIn boundIn
    rw [if_neg known]
    rfl

/-- At a stage of a search no walk over unmarked arcs demands more of its end than the stored bound and
the bound in the search. -/
lemma Searching.le_of_walk (h : Searching safe F net₀ b side top [] net s)
    (settled : Settled F net₀ side hidden (b.table side)) (nothing : (b.table side).deferred = [])
    (above : BaseAbove F b side) (walk : Walk (net.Unmarked side) k v len) :
    F.floor side k + len ≤ F.heights side (b.table side).value v ∧
      F.floor side k + len ≤ s.heightIn F b side v := by
  have stored : ∀ {u w lag}, net.Unmarked side u w lag →
      F.heights side (b.table side).value u + lag ≤ F.heights side (b.table side).value w :=
    fun arc => settled.arcs nothing (h.alike.leads side ▸ arc.leads)
  have starts : ∀ v, F.floor side v ≤
      min (F.heights side (b.table side).value v) (s.heightIn F b side v) := fun v =>
    le_min (settled.sound.above v) ((le_min (settled.sound.above v) (above v)).trans (h.le_heightIn v))
  refine le_min_iff.1 (walk.le_of_arcs starts fun {u w lag} arc => ?_)
  have demanded := stored arc
  by_cases known : Visited s.visited w
  · rcases h.enough w known List.not_mem_nil with enough | upper
    · omega
    · have implied := upper (.inr ⟨u, lag, arc, rfl⟩)
      omega
  · have same : s.heightIn F b side w = F.heights side (b.table side).value w := by
      unfold DeletionSearch.heightIn boundIn
      rw [if_neg known]
      rfl
    omega

/-- A plan promises no more than the root moves once its arcs are deleted, with or without others. -/
lemma Drawn.achieved_le {x : DeletionSearch × Network} (drawn : Drawn F net₀ b side root x plan)
    (h : Searching safe F net₀ b side top [] x.2 x.1)
    (settled : Settled F net₀ side hidden (b.table side)) (nothing : (b.table side).deferred = [])
    (above : BaseAbove F b side) (deleted : net₀.Deleted refs net')
    (covers : ∀ ref ∈ plan.arcs, ref ∈ refs) (sound : Sound F net' side value) :
    plan.achieved ≤ F.heights side (b.table side).value root - F.heights side value root := by
  have unmarked : ∀ {u w lag}, net'.Leads side u w lag → x.2.Unmarked side u w lag :=
    deleted.unmarked h.alike fun ref a found marked =>
      covers ref ((drawn.marked ref).2 ⟨a, found, marked⟩)
  obtain ⟨k, len, walk, same⟩ := sound.attained root
  have both := h.le_of_walk settled nothing above (walk.mono unmarked)
  rw [drawn.achieved, gain, same]
  omega

/-- The plan of the early side promises no more than the root starts earlier once its arcs are deleted, with or
without others. -/
lemma Cheapest.achieved_le {amount : Int} (h : Cheapest safe F net₀ b top root amount s plan)
    (settled : Settled F net₀ .early hidden b.early) (nothing : b.early.deferred = [])
    (above : BaseAbove F b .early) (deleted : net₀.Deleted refs net')
    (covers : ∀ ref ∈ plan.arcs, ref ∈ refs) (sound : Sound F net' .early value) :
    plan.achieved ≤ valueAt b.early.value root - valueAt value root := by
  cases h with
  | nothing => exact Int.sub_nonneg_of_le (settled.le_of_sound nothing deleted.leads sound root)
  | found _ _ considered stage drawn _ =>
    exact drawn.achieved_le (considered _ stage).searching settled nothing above deleted covers sound

/-- Once the arcs of a plan of the late side are deleted, with or without others, the root may finish later by
the amount and by what the plan has promised. -/
lemma Fewest.amount_le {amount : Int} (h : Fewest safe F net₀ b top root amount s (some plan))
    (settled : Settled F net₀ .late hidden b.late) (nothing : b.late.deferred = [])
    (above : BaseAbove F b .late) (deleted : net₀.Deleted refs net')
    (covers : ∀ ref ∈ plan.arcs, ref ∈ refs) (sound : Sound F net' .late value) :
    max (max plan.achieved amount) 0 ≤ valueAt value root - valueAt b.late.value root := by
  have lower := settled.le_of_sound nothing deleted.leads sound root
  dsimp only [Frame.heights, Frame.height] at lower
  cases h with
  | nothing notPositive =>
    have nothing_promised : DeletionPlan.none.achieved = 0 := rfl
    omega
  | found positive considered stage drawn reached =>
    have enough : amount ≤ plan.achieved := drawn.achieved ▸ reached
    have far := drawn.achieved_le (considered _ stage).searching settled nothing above deleted covers sound
    dsimp only [Frame.heights, Frame.height, Bounds.table] at far
    omega

end DeletionSearch

/-! ## Carrying out a plan -/

/-- Deletes the arcs of a plan and relaxes the bounds of a side from the near ends of the arcs on. -/
def DeletionPlan.carryOut (plan : DeletionPlan) (net : Network) (b : Bounds) (side : Side) :
    Checked (Network × Bounds) := do
  let seeds ← plan.arcs.mapM fun ref => do return side.nearEnd ref (← net.arc ref)
  let net ← net.delete plan.arcs
  let (b, _) ← b.relax net side seeds
  return (net, b)

section

variable {F : Frame} {net net' : Network} {b : Bounds} {side : Side} {plan : DeletionPlan}
  {safe : Prop} {hidden : Nat → Int → Prop}

/-- Carrying out a plan deletes its arcs and leaves settled bounds. -/
lemma carryOut_answers (linked : net.Linked) (durations : b.durations = F.durations)
    (settled : Settled F net side hidden (b.table side)) (nothing : (b.table side).deferred = [])
    (ok : ∀ net', net.Deleted plan.arcs net' → Relaxable safe F net' side (b.table side).value)
    (deletable : ∀ ref ∈ plan.arcs, net.Deletable ref) :
    (plan.carryOut net b side).AnswersIf safe fun r => net.Deleted plan.arcs r.1 ∧
      Sound F r.1 side (r.2.table side).value := by
  unfold DeletionPlan.carryOut
  refine (nearEnds_answers side deletable).answersIf.bind fun seeds ends => ?_
  refine (linked.delete deletable).answersIf.bind fun net' deleted => ?_
  refine (relax_answers durations settled nothing (ok net' deleted) linked deletable deleted ends).bind
    ?_
  rintro ⟨b', changed⟩ ⟨t', rfl, relaxed⟩
  refine .pure ⟨deleted, ?_⟩
  dsimp only
  rw [Bounds.table_withTable]
  exact (relaxed.settled hidden).sound

end

/-! ## Both searches -/

namespace Problem

variable {α : Type} {p : Problem α} {net : Network} {b : Bounds} {s : DeletionSearch} {job : Nat}
  {amount : Int} {side : Side}

/-- A network of the jobs of an instance with bounds for them, between two searches for a deletion. -/
structure Searchable (p : Problem α) (net : Network) (b : Bounds) : Prop where
  linked : net.Linked
  acyclic : Acyclic net.HasArc
  clean : net.flagged = 0
  numJobs : net.numJobs = p.jobs.size
  durations : b.durations = p.jobs.map Job.duration
  limit : ∀ side, (b.table side).limit = ((Bounds.ofProblem p).table side).limit
  base : ∀ side, (b.table side).base = ((Bounds.ofProblem p).table side).base
  size : ∀ side, (b.table side).value.size = p.jobs.size

/-- All jobs have room, and no lag is shorter than the duration of its source. -/
structure Spacious (p : Problem α) (R : Nat → Nat → Int → Prop) : Prop where
  fitting : p.Fitting R
  lags : ∀ {u w lag}, R u w lag → p.durationOf u ≤ lag

section

variable [Scalar α] (built : p.Built) (timely : p.Timely) (ready : p.Searchable net b)

include ready

/-- The base bounds are at least as tight as the limits, and there is one for each job. -/
lemma Searchable.baseAbove (side : Side) :
    DeletionSearch.BaseAbove (built.frame timely) b side ∧
      (b.table side).base.size = (built.frame timely).size := by
  obtain ⟨net, -, -, base⟩ := built.base timely
  have sound := base.sound side
  unfold DeletionSearch.BaseAbove
  rw [ready.base side]
  exact ⟨sound.above, sound.size⟩

/-- What a search relies on if nothing is said about how large the numbers are. -/
lemma Searchable.ground (side : Side) (top : Nat → Int) :
    DeletionSearch.Ground False (built.frame timely) net b side top where
  linked := ready.linked
  size := ready.numJobs.trans (built.size_frame timely).symm
  acyclic := ready.acyclic
  durations := ready.durations
  base_size := (ready.baseAbove built timely side).2
  value_size := (ready.size side).trans (built.size_frame timely).symm
  room := False.elim

omit [Scalar α] in
/-- Bounds can be relaxed after a deletion, and this is safe if there is room. -/
lemma Searchable.relaxable {hidden : Nat → Int → Prop} {refs : List ArcRef} {net' : Network}
    (settled : Settled (built.frame timely) net side hidden (b.table side))
    (deleted : net.Deleted refs net') :
    Relaxable (p.Spacious net.HasArc) (built.frame timely) net' side (b.table side).value := by
  have sub : ∀ {u w lag}, net'.HasArc u w lag → net.HasArc u w lag := fun arc => deleted.hasArc arc
  refine ⟨deleted.linked, deleted.numJobs.trans (ready.numJobs.trans (built.size_frame timely).symm),
    ready.acyclic.mono sub, fun spacious => ?_⟩
  have nonneg : ∀ {u w lag}, net.HasArc u w lag → 0 ≤ lag := fun {u w lag} arc =>
    ((built.frame timely).duration_nonneg u).trans (spacious.lags arc)
  have roomy := spacious.fitting.roomy built timely ready.linked ready.numJobs nonneg
  have fits : Fits (built.frame timely) net (built.frame timely).deadlines :=
    fits_of_lags spacious.lags
  have ok : Relaxable True (built.frame timely) net' side (b.table side).value :=
    settled.relaxable roomy fits deleted.linked deleted.numJobs sub
  exact fun {_} enough le {_ _ _} arc => ok.crosses trivial enough le arc

end

/-- A plan of the early side never promises more than it delivers: its arcs are distinct and may be
deleted, and afterwards the job starts earlier by at least what the plan has promised.  If there is
something to be gained, the plan costs least of all stages of the search. -/
theorem backward_delivers [Scalar α] {jobs : Array (Job α)} {resources : List (Resource α)}
    {given : List Precedence} (accepted : (Problem.build jobs resources given).Accepts p)
    (timely : p.Timely) (ready : p.Searchable net b) (exact_bounds : p.ExactBounds net.HasArc b)
    (nothing : ∀ side, (b.table side).deferred = []) (sized : s.Sized p.jobs.size)
    (hv : job < p.jobs.size) (fine : s.backward net b job amount ≠ .error .overflow) :
    (s.backward net b job amount).Answers fun (plan, _, _) =>
      plan.arcs.Nodup ∧ (∀ ref ∈ plan.arcs, net.Deletable ref) ∧
      (plan.carryOut net b .early).AnswersIf (p.Spacious net.HasArc) (fun (net', b') =>
        net.Deleted plan.arcs net' ∧
          plan.achieved ≤ valueAt b.early.value job - valueAt b'.early.value job) ∧
      (0 < amount → valueAt b.early.value job ≠ valueAt b.early.base job →
        IsLeast {cost | ∃ s' net' achieved, s.Stage net b .early job (s', net') ∧
            s'.moved b .early job = .ok achieved ∧ cost = DeletionSearch.markedCount net' +
              s.penalty * (amount - achieved).toNat}
          (plan.arcs.length + s.penalty * (amount - plan.achieved).toNat)) := by
  have built := Problem.built_of_build accepted
  have settled := fun side => exact_bounds.settled built timely ready.linked ready.numJobs ready.limit
    nothing side fun _ _ => False
  have size := built.size_frame timely
  have above := (ready.baseAbove built timely .early).1
  refine ((DeletionSearch.backward_answers (ready.ground built timely .early fun _ => 0) ready.clean
    (size ▸ sized) (size ▸ hv) False.elim).answers_of_ne fine).imp ?_
  rintro ⟨plan, s', net'⟩ ⟨cheapest, -⟩
  have sane := cheapest.sane
  refine ⟨sane.distinct, sane.deletable, ?_, ?_⟩
  · refine (carryOut_answers ready.linked ready.durations (settled .early) (nothing .early)
      (fun net' deleted => ready.relaxable built timely (settled .early) deleted)
      sane.deletable).imp ?_
    rintro ⟨net', b'⟩ ⟨deleted, sound⟩
    exact ⟨deleted, cheapest.achieved_le (settled .early) (nothing .early) above deleted
      (fun ref member => member) sound⟩
  · intro positive apart
    cases cheapest with
    | nothing none_to_gain => exact (none_to_gain.elim (Int.not_le.2 positive) apart).elim
    | @found x _ _ _ considered stage drawn least =>
      refine ⟨⟨x.1, x.2, _, stage, (considered x stage).moved, ?_⟩, ?_⟩
      · rw [drawn.length, drawn.achieved]
      · rintro cost ⟨s', net', achieved, stage', moved, rfl⟩
        have there := considered _ stage'
        have same := Except.ok.inj (there.moved.symm.trans moved)
        have lower := least _ stage'
        unfold DeletionSearch.costOf at lower
        rw [(considered x stage).penalty, there.penalty, same] at lower
        rwa [drawn.length, drawn.achieved]

/-! ## A small instance -/

/-- Two jobs that nothing joins. -/
def loose : Problem Float where
  jobs := #[⟨3, 0, 30, []⟩, ⟨2, 0, 30, []⟩]
  resources := []
  precedences := []
  order := [0, 1]
  earliestStart := #[0, 0]
  latestFinish := #[30, 30]

/-- The first of the two jobs was put in front of the second one. -/
def serial : Network where
  outgoing := #[#[⟨1, 0, 3, false, false, false⟩], #[]]
  incoming := #[#[], #[⟨0, 0⟩]]
  arcCount := 1
  generation := 1

/-- The bounds of the two jobs one after the other. -/
def serialBounds : Bounds where
  durations := #[3, 2]
  early := { limit := #[0, 0], base := #[0, 0], value := #[0, 3], deferred := [] }
  late := { limit := #[30, 30], base := #[30, 30], value := #[28, 30], deferred := [] }

/-- The two jobs are accepted. -/
lemma loose_accepted : (Problem.build loose.jobs [] []).Accepts loose := by cbv

/-- The deadlines of the two jobs are times. -/
lemma loose_timely : loose.Timely := by
  intro job member
  simp only [loose, List.mem_cons, List.not_mem_nil, or_false] at member
  rcases member with rfl | rfl <;> decide

/-- The arc from the first to the second job was inserted. -/
lemma inserted_serial : (empty 2).Inserted 0 1 3 false serial :=
  ((linked_empty 2).insert (by decide) (by decide) 3 false).of_eq_ok (by decide_cbv)

/-- The arc from the first to the second job is the only one. -/
lemma hasArc_serial {u w : Nat} {lag : Int} : serial.HasArc u w lag ↔ u = 0 ∧ w = 1 ∧ lag = 3 :=
  inserted_serial.hasArc_iff.trans (or_iff_right (not_hasArc_empty 2))

/-- The arc closes no cycle. -/
lemma acyclic_serial : Acyclic serial.HasArc := acyclic_of_lt id fun arc => by
  obtain ⟨rfl, rfl, -⟩ := hasArc_serial.1 arc
  decide

/-- The network of the two jobs is ready for a search. -/
lemma searchable_serial : loose.Searchable serial serialBounds where
  linked := inserted_serial.linked
  acyclic := acyclic_serial
  clean := by decide_cbv
  numJobs := rfl
  durations := by decide_cbv
  limit side := by cases side <;> decide_cbv
  base side := by cases side <;> rfl
  size side := by cases side <;> rfl

/-- The bounds of the two jobs are exact. -/
lemma exactBounds_serial : loose.ExactBounds serial.HasArc serialBounds := by
  refine (Problem.built_of_build loose_accepted).exactBounds_of_solves loose_timely acyclic_serial
    (fun arc => ?_) rfl rfl (fun v hv => ?_) fun v hv => ?_
  · obtain ⟨rfl, rfl, -⟩ := hasArc_serial.1 arc
    decide
  · have hv : v < 2 := hv
    simp only [hasArc_serial]
    interval_cases v
    · refine ⟨.inl (by decide_cbv), ?_⟩
      rintro y (rfl | ⟨u, lag, ⟨-, impossible, -⟩, -⟩)
      · decide_cbv
      · cases impossible
    · refine ⟨.inr ⟨0, 3, ⟨rfl, rfl, rfl⟩, by decide_cbv⟩, ?_⟩
      rintro y (rfl | ⟨u, lag, ⟨rfl, -, rfl⟩, rfl⟩) <;> decide_cbv
  · have hv : v < 2 := hv
    simp only [hasArc_serial]
    interval_cases v
    · refine ⟨.inr ⟨1, 3, ⟨rfl, rfl, rfl⟩, by decide_cbv⟩, ?_⟩
      rintro y (rfl | ⟨w, lag, ⟨-, rfl, rfl⟩, rfl⟩) <;> decide_cbv
    · refine ⟨.inl (by decide_cbv), ?_⟩
      rintro y (rfl | ⟨w, lag, ⟨impossible, -⟩, -⟩)
      · decide_cbv
      · cases impossible

/-- Nothing is deferred. -/
lemma nothing_serial (side : Side) : (serialBounds.table side).deferred = [] := by
  cases side <;> rfl

/-- A stage of a search whose root has the bound of the instance gains nothing. -/
lemma gain_eq_zero {F : Frame} {safe : Prop} {top : Nat → Int} {x : DeletionSearch × Network}
    (h : DeletionSearch.Searching safe F net b side top [] x.2 x.1)
    (same : valueAt (b.table side).value job = valueAt (b.table side).base job) :
    x.1.gain F b side job = 0 := by
  have lower := h.le_heightIn job
  unfold Frame.heights at lower
  rw [← same, min_self] at lower
  exact max_eq_right (Int.sub_nonpos_of_le lower)

/-- The second job can start three steps earlier, as it was promised, if the only arc is deleted. -/
theorem backward_delivers_serial : (Problem.build loose.jobs [] []).Accepts loose ∧ loose.Timely ∧
    loose.Searchable serial serialBounds ∧ loose.ExactBounds serial.HasArc serialBounds ∧
    (DeletionSearch.empty 2 2 5).Sized 2 ∧
    ((DeletionSearch.empty 2 2 5).backward serial serialBounds 1 4).Answers fun (plan, _, _) =>
      plan = ⟨[⟨0, 0, 1⟩], 3⟩ ∧
        IsLeast {cost | ∃ s' net' achieved,
            (DeletionSearch.empty 2 2 5).Stage serial serialBounds .early 1 (s', net') ∧
            s'.moved serialBounds .early 1 = .ok achieved ∧
              cost = DeletionSearch.markedCount net' + 5 * (4 - achieved).toNat} 6 := by
  have sized := DeletionSearch.sized_empty 2 2 5
  refine ⟨loose_accepted, loose_timely, searchable_serial, exactBounds_serial, sized, ?_⟩
  have found : ((DeletionSearch.empty 2 2 5).backward serial serialBounds 1 4).Answers fun r =>
      r.1 = ⟨[⟨0, 0, 1⟩], 3⟩ := by decide +kernel
  have delivers := backward_delivers loose_accepted loose_timely searchable_serial exactBounds_serial
    nothing_serial sized (show 1 < 2 by decide)
    (show (DeletionSearch.empty 2 2 5).backward serial serialBounds 1 4 ≠ .error .overflow by
      decide +kernel)
  refine (found.and delivers).imp ?_
  rintro ⟨plan, s', net'⟩ ⟨rfl, -, -, -, least⟩
  exact ⟨rfl, least (by decide) (by decide)⟩

/-- A plan of the late side reaches the amount that was asked for: its arcs are distinct and may be deleted,
and afterwards the job may finish later by at least the amount and what the plan has promised.  It has
the fewest arcs of all stages of the search that reach the amount, and there is none exactly if no
stage does. -/
theorem forward_reaches [Scalar α] {jobs : Array (Job α)} {resources : List (Resource α)}
    {given : List Precedence} (accepted : (Problem.build jobs resources given).Accepts p)
    (timely : p.Timely) (ready : p.Searchable net b) (exact_bounds : p.ExactBounds net.HasArc b)
    (nothing : ∀ side, (b.table side).deferred = []) (sized : s.Sized p.jobs.size)
    (hv : job < p.jobs.size) (fine : s.forward net b job amount ≠ .error .overflow) :
    (s.forward net b job amount).Answers fun (result, _, _) =>
      (∀ plan, result = some plan → (0 < amount → amount ≤ plan.achieved) ∧
        plan.arcs.Nodup ∧ (∀ ref ∈ plan.arcs, net.Deletable ref) ∧
        (plan.carryOut net b .late).AnswersIf (p.Spacious net.HasArc) (fun (net', b') =>
          net.Deleted plan.arcs net' ∧ max (max plan.achieved amount) 0 ≤
            valueAt b'.late.value job - valueAt b.late.value job) ∧
        (amount ≤ 0 → plan = .none) ∧
        (0 < amount → IsLeast {count | ∃ s' net' achieved, s.Stage net b .late job (s', net') ∧
            s'.moved b .late job = .ok achieved ∧ amount ≤ achieved ∧
              count = DeletionSearch.markedCount net'}
          plan.arcs.length)) ∧
      (result = none ↔ 0 < amount ∧ ∀ s' net' achieved, s.Stage net b .late job (s', net') →
        s'.moved b .late job = .ok achieved → achieved < amount) := by
  have built := Problem.built_of_build accepted
  have settled := fun side => exact_bounds.settled built timely ready.linked ready.numJobs ready.limit
    nothing side fun _ _ => False
  have size := built.size_frame timely
  have above := (ready.baseAbove built timely .late).1
  have ground := ready.ground built timely .late fun _ => 0
  refine ((DeletionSearch.forward_answers ground ready.clean (size ▸ sized)
    (size ▸ hv)).answers_of_ne fine).imp ?_
  rintro ⟨result, s', net'⟩ ⟨fewest, -⟩
  have delivers : ∀ plan, result = some plan →
      (plan.carryOut net b .late).AnswersIf (p.Spacious net.HasArc) (fun (net', b') =>
        net.Deleted plan.arcs net' ∧ max (max plan.achieved amount) 0 ≤
          valueAt b'.late.value job - valueAt b.late.value job) := by
    rintro plan rfl
    refine (carryOut_answers ready.linked ready.durations (settled .late) (nothing .late)
      (fun net' deleted => ready.relaxable built timely (settled .late) deleted)
      fewest.sane.deletable).imp ?_
    rintro ⟨net', b'⟩ ⟨deleted, sound⟩
    exact ⟨deleted, fewest.amount_le (settled .late) (nothing .late) above deleted
      (fun ref member => member) sound⟩
  cases fewest with
  | nothing notPositive =>
    refine ⟨?_, ⟨nofun, fun h => absurd h.1 (Int.not_lt.2 notPositive)⟩⟩
    rintro plan ⟨⟩
    have sane := DeletionSearch.sane_none net
    exact ⟨fun positive => absurd positive (Int.not_lt.2 notPositive), sane.distinct, sane.deletable,
      delivers _ rfl, fun _ => rfl, fun positive => absurd positive (Int.not_lt.2 notPositive)⟩
  | loose positive same =>
    refine ⟨fun _ => nofun, fun _ => ⟨positive, fun s' net' achieved stage moved => ?_⟩, fun _ => rfl⟩
    obtain ⟨h, known, -⟩ := stage.searching ground ready.clean (size ▸ sized) (size ▸ hv)
    rw [((h.moved ground known).ensures _ moved).1, gain_eq_zero (x := (s', net')) h same]
    exact positive
  | missed positive considered none_reaches =>
    refine ⟨fun _ => nofun, fun _ => ⟨positive, fun s' net' achieved stage moved => ?_⟩, fun _ => rfl⟩
    have same := Except.ok.inj ((considered _ stage).moved.symm.trans moved)
    exact not_le.1 (same ▸ none_reaches _ stage)
  | @found x plan positive considered stage drawn reached least =>
    refine ⟨?_, nofun, fun none_reaches => ?_⟩
    · rintro _ ⟨⟩
      have sane := drawn.sane
      have enough : amount ≤ plan.achieved := drawn.achieved ▸ reached
      refine ⟨fun _ => enough, sane.distinct, sane.deletable, delivers _ rfl,
        fun notPositive => absurd positive (Int.not_lt.2 notPositive), fun _ => ⟨?_, ?_⟩⟩
      · exact ⟨x.1, x.2, _, stage, (considered x stage).moved, reached, drawn.length⟩
      · rintro count ⟨s', net', achieved, stage', moved, enough', rfl⟩
        have same := Except.ok.inj ((considered _ stage').moved.symm.trans moved)
        rw [drawn.length]
        exact least _ stage' (enough'.trans_eq same.symm)
    · have less := none_reaches.2 x.1 x.2 _ stage (considered x stage).moved
      exact absurd reached (not_le.2 less)

/-- The first job can finish two steps later, as it was asked for, if the only arc is deleted; but not three
steps later. -/
theorem forward_reaches_serial : (Problem.build loose.jobs [] []).Accepts loose ∧ loose.Timely ∧
    loose.Searchable serial serialBounds ∧ loose.ExactBounds serial.HasArc serialBounds ∧
    (DeletionSearch.empty 2 2 5).Sized 2 ∧
    ((DeletionSearch.empty 2 2 5).forward serial serialBounds 0 2).Answers (fun (result, _, _) =>
      result = some ⟨[⟨0, 0, 1⟩], 2⟩ ∧
        ((⟨[⟨0, 0, 1⟩], 2⟩ : DeletionPlan).carryOut serial serialBounds .late).AnswersIf
          (loose.Spacious serial.HasArc) (fun (_, b') => 2 ≤ valueAt b'.late.value 0 - 28)) ∧
    ((DeletionSearch.empty 2 2 5).forward serial serialBounds 0 3).Answers fun (result, _, _) =>
      result = none ∧ ∀ s' net' achieved,
        (DeletionSearch.empty 2 2 5).Stage serial serialBounds .late 0 (s', net') →
          s'.moved serialBounds .late 0 = .ok achieved → achieved < 3 := by
  have sized := DeletionSearch.sized_empty 2 2 5
  refine ⟨loose_accepted, loose_timely, searchable_serial, exactBounds_serial, sized, ?_, ?_⟩
  · have found : ((DeletionSearch.empty 2 2 5).forward serial serialBounds 0 2).Answers fun r =>
        r.1 = some ⟨[⟨0, 0, 1⟩], 2⟩ := by decide +kernel
    have reaches := forward_reaches loose_accepted loose_timely searchable_serial exactBounds_serial
      nothing_serial sized (show 0 < 2 by decide)
      (show (DeletionSearch.empty 2 2 5).forward serial serialBounds 0 2 ≠ .error .overflow by
        decide +kernel)
    refine (found.and reaches).imp ?_
    rintro ⟨plan, s', net'⟩ ⟨rfl, plans, -⟩
    obtain ⟨-, -, -, carried, -⟩ := plans _ rfl
    exact ⟨rfl, carried.imp fun r both => both.2⟩
  · have found : ((DeletionSearch.empty 2 2 5).forward serial serialBounds 0 3).Answers fun r =>
        r.1 = none := by decide +kernel
    have reaches := forward_reaches loose_accepted loose_timely searchable_serial exactBounds_serial
      nothing_serial sized (show 0 < 2 by decide)
      (show (DeletionSearch.empty 2 2 5).forward serial serialBounds 0 3 ≠ .error .overflow by
        decide +kernel)
    refine (found.and reaches).imp ?_
    rintro ⟨plan, s', net'⟩ ⟨rfl, -, missing⟩
    exact ⟨rfl, (missing.1 rfl).2⟩

end Problem

end Leveling
