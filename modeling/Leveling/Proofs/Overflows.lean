import Leveling.Proofs.Feasibility

/-!
# Instances out of range

Before an instance is accepted or refused, its numbers are added and subtracted, and a number that leaves the
range of times on the way stops everything.  This happens in four places only.  A window may end so long before
it begins that its length is no time.  A precedence may push its target past the greatest time, or leave its
source a start before the least time or a finish past the greatest one.  And a job that starts as early as it
can may finish past the greatest time.

What a precedence demands is said in terms of the exact bounds of the job from which it starts.  The passes know
these bounds when they come to the precedence, since all that leads to this job was looked at before.  So no
overflow depends on the order in which the precedences are looked at.
-/

namespace Leveling

open Checked Network

/-! ## Arcs that demand too much -/

section

variable {F : Frame} {net : Network} {side : Side} {value value' : Array Int} {u w : Nat} {lag : Int}

/-- Before an arc is looked at, the height at its beginning is the exact one, since all arcs that lead there
were looked at before. -/
lemma Sound.isLongest_before (acyclic : Acyclic net.HasArc) {before after : List (Nat × Nat × Int)}
    (complete : ∀ a, a ∈ before ++ (u, w, lag) :: after ↔ net.Leads side a.1 a.2.1 a.2.2)
    (ordered : (before ++ (u, w, lag) :: after).Pairwise fun a b => b.2.1 ≠ a.1)
    (sound : Sound F net side value)
    (answer : before.foldlM (Leveling.raiseOver side F.durations) value = .ok value') :
    Sound F net side value' ∧ IsLongest (net.Leads side) (F.floor side) u (F.heights side value' u) := by
  obtain ⟨earlier, later, apart⟩ := List.pairwise_append.1 ordered
  obtain ⟨never, -⟩ := List.pairwise_cons.1 later
  obtain ⟨sound', -, -, enough⟩ := sound.raiseAll acyclic
    (fun a member => (complete a).1 (List.mem_append_left _ member)) earlier answer
  refine ⟨sound', sound'.attained u, ?_⟩
  rintro _ ⟨k, len, walk, rfl⟩
  -- only the ends of the arcs that are still to be looked at may be too low
  have stale : ∀ {x y l}, net.Leads side x y l → F.heights side value' y < F.heights side value' x + l →
      ∃ a ∈ (u, w, lag) :: after, a.2.1 = y := by
    intro x y l arc less
    rcases List.mem_append.1 ((complete (x, y, l)).2 arc) with done | waits
    · exact absurd (enough _ done).1 (not_le.2 less)
    · exact ⟨_, waits, rfl⟩
  have travels : ∀ {x y l}, net.Leads side x y l → F.heights side value' x + l ≤ F.heights side value' y →
      (∃ a ∈ (u, w, lag) :: after, a.2.1 = x) → ∃ a ∈ (u, w, lag) :: after, a.2.1 = y := by
    rintro _ y l arc - ⟨a, member, rfl⟩
    rcases List.mem_append.1 ((complete (a.2.1, y, l)).2 arc) with done | waits
    · exact absurd rfl (apart _ done _ member)
    · exact ⟨_, waits, rfl⟩
  refine walk.le_of_hidden sound'.above stale travels ?_
  rintro ⟨a, member, same⟩
  rcases List.mem_cons.1 member with rfl | member
  · have arc := (complete (u, w, lag)).1 (List.mem_append_right _ List.mem_cons_self)
    exact (acyclic_leads acyclic side).ne arc same.symm
  · exact never a member same

/-- An arc demands a bound for which there is no time, where the bound from which it starts is the exact one. -/
def Frame.Exceeds (F : Frame) (R : Nat → Nat → Int → Prop) (side : Side) : Prop :=
  ∃ u w lag h, R u w lag ∧ IsLongest R (F.floor side) u h ∧ ¬F.InTime side w (h + lag)

end

namespace Problem

variable {α : Type} {jobs : Array (Job α)} {given : List Precedence} {p : Problem α} {net : Network}
  {side : Side} {fault : Fault}

/-! ## The passes -/

/-- An arc is looked at with the exact height of its beginning.  The pass goes on if there is time for what the arc
demands, and stops with an overflow otherwise. -/
lemma Arranged.sweep_cases (arranged : p.Arranged) (timely : p.Timely)
    (edges : net.edges = (p.precedences.map Precedence.edge : List Edge)) {u w : Nat} {lag : Int}
    {before after : List (Nat × Nat × Int)} (split : p.sweep side = before ++ (u, w, lag) :: after)
    {value : Array Int} (answer : before.foldlM (raiseOver side (arranged.frame timely).durations)
      ((arranged.frame timely).limit side) = .ok value) :
    IsLongest (net.Leads side) ((arranged.frame timely).floor side) u
        ((arranged.frame timely).heights side value u) ∧
      ((arranged.frame timely).InTime side w ((arranged.frame timely).heights side value u + lag) ∧
          (∃ value', raiseOver side (arranged.frame timely).durations value (u, w, lag) = .ok value') ∨
        ¬(arranged.frame timely).InTime side w ((arranged.frame timely).heights side value u + lag) ∧
          raiseOver side (arranged.frame timely).durations value (u, w, lag) = .error .overflow) := by
  have complete : ∀ a, a ∈ p.sweep side ↔ net.Leads side a.1 a.2.1 a.2.2 := fun a =>
    arranged.mem_sweep edges
  have ordered := arranged.pairwise_sweep side
  have size : (arranged.frame timely).size = p.jobs.size := Array.size_map ..
  have listed : (u, w, lag) ∈ p.sweep side := split ▸ List.mem_append_right _ List.mem_cons_self
  obtain ⟨hu, hw, nonneg⟩ := arranged.proper_sweep listed
  rw [split] at complete ordered
  obtain ⟨sound, longest⟩ := (sound_limit _ net side).isLongest_before (arranged.acyclic edges) complete
    ordered answer
  exact ⟨longest, raiseOver_cases sound.size (size ▸ hu) (size ▸ hw) (sound.above u) nonneg⟩

/-- A pass answers with the exact heights, or it stops with an overflow because an arc demands too much. -/
lemma Arranged.pass_cases (arranged : p.Arranged) (timely : p.Timely)
    (edges : net.edges = (p.precedences.map Precedence.edge : List Edge)) (side : Side) :
    (¬(arranged.frame timely).Exceeds (net.Leads side) side ∧ ∃ bounds, p.pass side = .ok bounds ∧
        bounds.size = p.jobs.size ∧ ∀ v, IsLongest (net.Leads side) ((arranged.frame timely).floor side) v
          ((arranged.frame timely).heights side bounds v)) ∨
      (arranged.frame timely).Exceeds (net.Leads side) side ∧ p.pass side = .error .overflow := by
  have size : (arranged.frame timely).size = p.jobs.size := Array.size_map ..
  have whole := arranged.foldlM_sweep timely side
  rcases Checked.foldlM_cases (g := raiseOver side (arranged.frame timely).durations) (p.sweep side)
    ((arranged.frame timely).limit side) with ⟨bounds, answer⟩ | ⟨before, ⟨u, w, lag⟩, after, value, fault,
      split, answer, stops, all⟩
  · obtain ⟨sound, enough⟩ := arranged.sound_pass timely edges (whole.symm.trans answer)
    refine .inl ⟨?_, bounds, whole.symm.trans answer, sound.size.trans size, fun v =>
      isLongest_of_arcs sound.above (fun arc => (enough arc).1) (sound.attained v)⟩
    rintro ⟨u, w, lag, h, arc, longest, late⟩
    obtain ⟨before, after, split⟩ := List.append_of_mem ((arranged.mem_sweep edges).2 arc)
    rw [split, List.foldlM_append] at answer
    obtain ⟨value, first, rest⟩ := Checked.bind_eq_ok.1 answer
    obtain ⟨longest', cases⟩ := arranged.sweep_cases timely edges split first
    obtain rfl := longest.unique longest'
    rcases cases with ⟨inTime, -⟩ | ⟨-, stops⟩
    · exact late inTime
    · rw [List.foldlM_cons, stops] at rest
      cases rest
  · obtain ⟨longest, ⟨-, _, goes_on⟩ | ⟨late, overflow⟩⟩ := arranged.sweep_cases timely edges split answer
    · cases goes_on.symm.trans stops
    · cases overflow.symm.trans stops
      have arc := (arranged.mem_sweep edges).1 (split ▸ List.mem_append_right _ List.mem_cons_self)
      exact .inr ⟨⟨u, w, lag, _, arc, longest, late⟩, whole.symm.trans all⟩

/-- The arcs of the network are the precedences. -/
lemma hasArc_eq_among (edges : net.edges = (p.precedences.map Precedence.edge : List Edge)) :
    net.HasArc = Precedence.Among p.precedences :=
  funext fun _ => funext fun _ => funext fun _ => propext (hasArc_of_edges edges)

/-- There is no time for an arc of the early side if it pushes an exact start past the greatest time. -/
lemma Arranged.exceeds_early_iff (arranged : p.Arranged) (timely : p.Timely) :
    (arranged.frame timely).Exceeds (Precedence.Among p.precedences) .early ↔
      ∃ q ∈ p.precedences, ∃ y, p.IsExactStart (Precedence.Among p.precedences) q.source y ∧
        greatestTime < y + q.lag := by
  constructor
  · rintro ⟨u, w, lag, h, arc, longest, late⟩
    refine ⟨⟨u, w, lag⟩, arc, h, longest, not_le.1 fun fits => late ⟨?_, fits⟩⟩
    have release : 0 ≤ p.releaseOf u := (arranged.frame timely).release_nonneg u
    have above : p.releaseOf u + 0 ≤ h := longest.le .nil
    have nonneg : 0 ≤ lag := (arranged.precedences _ arc).lag_nonneg
    dsimp only [Side.startOf]
    unfold leastTime
    omega
  · rintro ⟨q, member, y, longest, exceeds⟩
    exact ⟨q.source, q.target, q.lag, y, member, longest, fun inTime => absurd inTime.2 (not_le.2 exceeds)⟩

/-- There is no time for an arc of the late side if it leaves too little or too much to its source. -/
lemma Arranged.exceeds_late_iff (arranged : p.Arranged) (timely : p.Timely) :
    (arranged.frame timely).Exceeds (reversed (Precedence.Among p.precedences)) .late ↔
      ∃ q ∈ p.precedences, ∃ y, p.IsExactFinish (Precedence.Among p.precedences) q.target y ∧
        (y - p.durationOf q.target - q.lag < leastTime ∨
          greatestTime < y - p.durationOf q.target - q.lag + p.durationOf q.source) := by
  have inTime_iff : ∀ u w lag y, (arranged.frame timely).InTime .late w
      ((arranged.frame timely).height .late u y + lag) ↔ leastTime ≤ y - p.durationOf u - lag ∧
        y - p.durationOf u - lag + p.durationOf w ≤ greatestTime := by
    intro u w lag y
    have height : (arranged.frame timely).height .late u y = p.durationOf u - y := rfl
    have bound : (arranged.frame timely).boundOf .late w (p.durationOf u - y + lag) =
        p.durationOf w - (p.durationOf u - y + lag) := rfl
    unfold Frame.InTime
    rw [height, bound]
    dsimp only [Side.startOf]
    omega
  constructor
  · rintro ⟨u, w, lag, h, arc, longest, late⟩
    have finish : (arranged.frame timely).height .late u ((arranged.frame timely).boundOf .late u h) = h :=
      Frame.height_boundOf
    rw [← finish] at longest late
    refine ⟨⟨w, u, lag⟩, arc, _, (arranged.isExactFinish_iff timely).2 longest, ?_⟩
    rw [inTime_iff, not_and_or, not_le, not_le] at late
    exact late
  · rintro ⟨q, member, y, exact_finish, exceeds⟩
    refine ⟨q.target, q.source, q.lag, _, member, (arranged.isExactFinish_iff timely).1 exact_finish, ?_⟩
    rw [inTime_iff, not_and_or, not_le, not_le]
    exact exceeds

/-! ## The room -/

/-- The check of the room stops at a job that ends too late, if all jobs before have room. -/
lemma checkRoom_stops_iff {earliest latest : Array Int} {jobs : List (Job α)} :
    ∀ {id : Nat}, (∀ i job, jobs[i]? = some job → id + i < earliest.size ∧ id + i < latest.size ∧
      leastTime ≤ valueAt earliest (id + i) + job.duration ∧ valueAt latest (id + i) ≤ greatestTime) →
        ((checkRoom earliest latest jobs id).Stops fault ↔ fault = .overflow ∧
          ∃ i job, jobs[i]? = some job ∧ greatestTime < valueAt earliest (id + i) + job.duration ∧
            ∀ j < i, ∀ job', jobs[j]? = some job' →
              valueAt earliest (id + j) + job'.duration ≤ valueAt latest (id + j)) := by
  induction jobs with
  | nil =>
    refine fun _ => iff_of_false Verdict.not_stops_pure ?_
    rintro ⟨-, i, job, impossible, -⟩
    simp at impossible
  | cons job rest ih =>
    intro id each
    have next : ∀ i, id + (i + 1) = id + 1 + i := fun i => by omega
    have others := @ih (id + 1) fun i job' there => by
      rw [← next]
      exact each (i + 1) job' (by rwa [List.getElem?_cons_succ])
    obtain ⟨inside, inside', least, greatest⟩ := each 0 job rfl
    rw [Nat.add_zero] at inside inside' least greatest
    unfold checkRoom
    rw [(Verdict.accepts_lift.2 (fetch_valueAt inside)).bind,
      (Verdict.accepts_lift.2 (fetch_valueAt inside')).bind]
    by_cases exceeds : greatestTime < valueAt earliest id + job.duration
    · rw [addTime_of_gt exceeds]
      refine Verdict.stops_bind.trans ⟨?_, fun stops => .inl (by rw [stops.1]; rfl)⟩
      rintro (stops | ⟨_, impossible, -⟩)
      · cases Verdict.stops_lift.1 stops
        exact ⟨rfl, 0, job, rfl, exceeds, fun j impossible => absurd impossible (Nat.not_lt_zero j)⟩
      · cases Verdict.accepts_lift.1 impossible
    · rw [(Verdict.accepts_lift.2 (addTime_of_mem least (not_lt.1 exceeds))).bind, Verdict.stops_guard,
        others]
      constructor
      · rintro ⟨room, rfl, i, job', there, exceeds', before⟩
        refine ⟨rfl, i + 1, job', by rwa [List.getElem?_cons_succ], by rwa [next],
          fun j small job'' there' => ?_⟩
        cases j with
        | zero =>
          obtain rfl := Option.some.inj there'
          exact not_lt.1 room
        | succ j =>
          rw [next]
          exact before j (Nat.lt_of_succ_lt_succ small) job'' (by rwa [List.getElem?_cons_succ] at there')
      · rintro ⟨rfl, i, job', there, exceeds', before⟩
        cases i with
        | zero =>
          obtain rfl := Option.some.inj there
          exact absurd exceeds' exceeds
        | succ i =>
          rw [next] at exceeds'
          refine ⟨not_lt.2 (before 0 (Nat.succ_pos i) job rfl), rfl, i, job', ?_, exceeds',
            fun j small job'' there' => ?_⟩
          · rwa [List.getElem?_cons_succ] at there
          · rw [← next]
            exact before (j + 1) (Nat.succ_lt_succ small) job'' (by rwa [List.getElem?_cons_succ])

/-! ## The bounds -/

/-- The ways in which the bounds of an instance can leave the range of times. -/
inductive Exceeds (p : Problem α) : Prop
  /-- A precedence pushes its target past the greatest time. -/
  | start (q : Precedence) (member : q ∈ p.precedences) (y : Int)
      (exact_start : p.IsExactStart (Precedence.Among p.precedences) q.source y)
      (exceeds : greatestTime < y + q.lag) : Exceeds p
  /-- A precedence leaves its source a start before the least time or a finish past the greatest time. -/
  | finish (q : Precedence) (member : q ∈ p.precedences) (y : Int)
      (exact_finish : p.IsExactFinish (Precedence.Among p.precedences) q.target y)
      (exceeds : y - p.durationOf q.target - q.lag < leastTime ∨
        greatestTime < y - p.durationOf q.target - q.lag + p.durationOf q.source) : Exceeds p
  /-- A job that starts as early as it can finishes past the greatest time, and all jobs before have room. -/
  | room (v : Nat) (hv : v < p.jobs.size) (y : Int)
      (exact_start : p.IsExactStart (Precedence.Among p.precedences) v y)
      (exceeds : greatestTime < y + p.durationOf v)
      (before : ∀ u < v, ∀ y z, p.IsExactStart (Precedence.Among p.precedences) u y →
        p.IsExactFinish (Precedence.Among p.precedences) u z → y + p.durationOf u ≤ z) : Exceeds p

/-- The check of the room between exact bounds stops at a job that ends too late, if all jobs before have room. -/
lemma Arranged.checkRoom_stops_iff (arranged : p.Arranged) (timely : p.Timely) {earliest latest : Array Int}
    (size : earliest.size = p.jobs.size) (size' : latest.size = p.jobs.size)
    (start_iff : ∀ v y, p.IsExactStart (Precedence.Among p.precedences) v y ↔ y = valueAt earliest v)
    (finish_iff : ∀ v z, p.IsExactFinish (Precedence.Among p.precedences) v z ↔ z = valueAt latest v) :
    (checkRoom earliest latest p.jobs.toList 0).Stops fault ↔ fault = .overflow ∧
      ∃ v < p.jobs.size, ∃ y, p.IsExactStart (Precedence.Among p.precedences) v y ∧
        greatestTime < y + p.durationOf v ∧
          ∀ u < v, ∀ y z, p.IsExactStart (Precedence.Among p.precedences) u y →
            p.IsExactFinish (Precedence.Among p.precedences) u z → y + p.durationOf u ≤ z := by
  rw [Problem.checkRoom_stops_iff fun i job there => ?_]
  · refine and_congr_right fun _ => ⟨?_, ?_⟩
    · rintro ⟨v, job, there, exceeds, before⟩
      obtain ⟨hv, duration⟩ := getElem?_jobs there
      rw [Nat.zero_add, duration] at exceeds
      refine ⟨v, hv, _, (start_iff v _).2 rfl, exceeds, fun u less y z exact_start exact_finish => ?_⟩
      have hu : u < p.jobs.size := less.trans hv
      have there' : p.jobs.toList[u]? = some p.jobs[u] := by
        rw [Array.getElem?_toList, Array.getElem?_eq_getElem hu]
      have room := before u less _ there'
      rwa [Nat.zero_add, (getElem?_jobs there').2, ← (start_iff u y).1 exact_start,
        ← (finish_iff u z).1 exact_finish] at room
    · rintro ⟨v, hv, y, exact_start, exceeds, before⟩
      have there : p.jobs.toList[v]? = some p.jobs[v] := by
        rw [Array.getElem?_toList, Array.getElem?_eq_getElem hv]
      refine ⟨v, _, there, ?_, fun u less job there' => ?_⟩
      · rwa [Nat.zero_add, (getElem?_jobs there).2, ← (start_iff v y).1 exact_start]
      · rw [Nat.zero_add, (getElem?_jobs there').2]
        exact before u less _ _ ((start_iff u _).2 rfl) ((finish_iff u _).2 rfl)
  · obtain ⟨hi, duration⟩ := getElem?_jobs there
    have release : 0 ≤ p.releaseOf i := (arranged.frame timely).release_nonneg i
    have nonneg : 0 ≤ p.durationOf i := (arranged.frame timely).duration_nonneg i
    have deadline : p.deadlineOf i ≤ greatestTime := (arranged.frame timely).deadline_le i
    have above : p.releaseOf i + 0 ≤ valueAt earliest i := ((start_iff i _).2 rfl).2 ⟨i, 0, .nil, rfl⟩
    have below : valueAt latest i ≤ p.deadlineOf i - p.durationOf i - 0 + p.durationOf i :=
      ((finish_iff i _).2 rfl).2 ⟨i, 0, .nil, rfl⟩
    rw [Nat.zero_add, duration]
    refine ⟨size ▸ hi, size' ▸ hi, ?_, by omega⟩
    unfold leastTime
    omega

/-- Only the jobs and the precedences play a part for the bounds. -/
lemma Exceeds.congr (exceeds : p.Exceeds) {p' : Problem α} (jobs : p'.jobs = p.jobs)
    (precedences : p'.precedences = p.precedences) : p'.Exceeds := by
  obtain ⟨_, _, _, _, _, _⟩ := p
  obtain ⟨_, _, _, _, _, _⟩ := p'
  dsimp only at jobs precedences
  subst jobs precedences
  cases exceeds with
  | start q member y exact_start exceeds => exact .start q member y exact_start exceeds
  | finish q member y exact_finish exceeds => exact .finish q member y exact_finish exceeds
  | room v hv y exact_start exceeds before => exact .room v hv y exact_start exceeds before

/-- The bounds of an arranged instance are computed and looked at, or they leave the range of times. -/
lemma Arranged.stops_iff (arranged : p.Arranged) (timely : p.Timely)
    {β : Type} {answer : Array Int → Array Int → β} :
    Verdict.Stops (do
      let earliest ← (liftM (p.pass .early) : Verdict (ProblemError α) (Array Int))
      let latest ← liftM (p.pass .late)
      checkRoom earliest latest p.jobs.toList 0
      return answer earliest latest) fault ↔ fault = .overflow ∧ p.Exceeds := by
  obtain ⟨net, -, -, -, edges, -⟩ := arranged.network
  have among := hasArc_eq_among edges
  have early := arranged.pass_cases timely edges .early
  have late := arranged.pass_cases timely edges .late
  dsimp only [Network.Leads] at early late
  rw [among] at early late
  rcases early with ⟨in_time, earliest, pass, size, longest⟩ | ⟨exceeds, pass⟩
  swap
  · obtain ⟨q, member, y, exact_start, exceeds⟩ := (arranged.exceeds_early_iff timely).1 exceeds
    rw [pass]
    refine ⟨fun stops => ?_, fun stops => by rw [stops.1]; rfl⟩
    cases stops
    exact ⟨rfl, .start q member y exact_start exceeds⟩
  rw [(Verdict.accepts_lift.2 pass).bind]
  rcases late with ⟨in_time', latest, pass', size', longest'⟩ | ⟨exceeds, pass'⟩
  swap
  · obtain ⟨q, member, y, exact_finish, exceeds⟩ := (arranged.exceeds_late_iff timely).1 exceeds
    rw [pass']
    refine ⟨fun stops => ?_, fun stops => by rw [stops.1]; rfl⟩
    cases stops
    exact ⟨rfl, .finish q member y exact_finish exceeds⟩
  rw [(Verdict.accepts_lift.2 pass').bind, Verdict.stops_bind,
    or_iff_left fun ⟨_, _, impossible⟩ => Verdict.not_stops_pure impossible]
  have start_iff : ∀ v y, p.IsExactStart (Precedence.Among p.precedences) v y ↔ y = valueAt earliest v :=
    fun v y => ⟨fun exact_start => exact_start.unique (longest v), fun same => same ▸ longest v⟩
  have finish_iff : ∀ v z, p.IsExactFinish (Precedence.Among p.precedences) v z ↔ z = valueAt latest v := by
    intro v z
    rw [arranged.isExactFinish_iff timely]
    refine ⟨fun exact_finish => ?_, fun same => same ▸ longest' v⟩
    have same : p.durationOf v - z = p.durationOf v - valueAt latest v := exact_finish.unique (longest' v)
    omega
  rw [arranged.checkRoom_stops_iff timely size size' start_iff finish_iff]
  refine and_congr_right fun _ => ⟨fun ⟨v, hv, y, exact_start, exceeds, before⟩ =>
    .room v hv y exact_start exceeds before, fun exceeds => ?_⟩
  cases exceeds with
  | start q member y exact_start exceeds =>
    exact absurd ((arranged.exceeds_early_iff timely).2 ⟨q, member, y, exact_start, exceeds⟩) in_time
  | finish q member y exact_finish exceeds =>
    exact absurd ((arranged.exceeds_late_iff timely).2 ⟨q, member, y, exact_finish, exceeds⟩) in_time'
  | room v hv y exact_start exceeds before => exact ⟨v, hv, y, exact_start, exceeds, before⟩

end Problem

/-! ## The parts -/

section

variable {α : Type} [Scalar α] {jobs : Array (Job α)} {resources : List (Resource α)} {given : List Precedence}
  {fault : Fault}

/-- All is well with the job but for its window, which ends so long before it begins that its length is no
time. -/
structure Job.Inverted (job : Job α) (resources : Nat) : Prop where
  demand_length : job.demand.length = resources
  amounts : ∀ x ∈ job.demand, isAmount x = true
  duration_nonneg : 0 ≤ job.duration
  release_nonneg : 0 ≤ job.release
  inverted : job.deadline - job.release < leastTime

/-- The check of a job stops only at an inverted window. -/
lemma Job.check_stops_iff {job : Job α} {id n : Nat} (timely : job.deadline ≤ greatestTime) :
    (job.check id n).Stops fault ↔ fault = .overflow ∧ job.Inverted n := by
  have amounts_iff : job.demand.zipIdx.find? (fun x => !isAmount x.1) = none ↔
      ∀ x ∈ job.demand, isAmount x = true := by
    simp only [List.find?_eq_none, Bool.not_eq_true', Bool.not_eq_false]
    refine ⟨fun all x member => ?_, fun all x member => all x.1 (List.fst_mem_of_mem_zipIdx member)⟩
    obtain ⟨i, there⟩ := List.mem_iff_getElem?.1 member
    exact all (x, i) (List.mk_mem_zipIdx_iff_getElem?.2 there)
  have never : ∀ room : Int, ¬(if room < job.duration then
      throw (.windowTooShort id job.release job.deadline job.duration) else pure () :
        Verdict (ProblemError α) Unit).Stops fault := by
    intro room
    split
    · exact Verdict.not_stops_throw
    · exact Verdict.not_stops_pure
  unfold Job.check
  dsimp only
  rw [Verdict.stops_guard]
  split
  · rename_i found
    refine iff_of_false (fun stops => ?_) fun both => ?_
    · rcases Verdict.stops_bind.1 stops.2 with here | ⟨_, impossible, -⟩
      · exact Verdict.not_stops_throw here
      · exact Verdict.not_accepts_throw impossible
    · rw [amounts_iff.2 both.2.amounts] at found
      cases found
  · rename_i none_found
    rw [Verdict.stops_guard, Verdict.stops_guard, Verdict.stops_bind,
      or_iff_left fun ⟨room, _, impossible⟩ => never room impossible, Verdict.stops_lift, subTime,
      asTime_eq_error]
    constructor
    · rintro ⟨length, duration, release, rfl, outside⟩
      refine ⟨rfl, not_not.1 length, amounts_iff.1 none_found, not_lt.1 duration, not_lt.1 release, ?_⟩
      omega
    · rintro ⟨rfl, inverted⟩
      have window := inverted.inverted
      exact ⟨not_not.2 inverted.demand_length, not_lt.2 inverted.duration_nonneg,
        not_lt.2 inverted.release_nonneg, rfl, by omega⟩

omit [Scalar α] in
/-- The check of a precedence does not stop. -/
lemma Precedence.not_stops_check {q : Precedence} {n : Nat} :
    ¬(q.check n : Verdict (ProblemError α) Unit).Stops fault := by
  unfold Precedence.check
  split
  · exact Verdict.not_stops_throw
  · split
    · exact Verdict.not_stops_throw
    · split
      · exact Verdict.not_stops_throw
      · exact Verdict.not_stops_pure

namespace Problem

/-- The ways in which an instance can leave the range of times. -/
inductive Overflows (jobs : Array (Job α)) (resources : List (Resource α)) (given : List Precedence) : Prop
  /-- The window of a job is inverted, and all that is looked at before is accepted. -/
  | window (each_resource : ∀ r ∈ resources, r.check = .ok ()) (before after : List (Job α × Nat))
      (job : Job α) (id : Nat) (split : jobs.toList.zipIdx = before ++ (job, id) :: after)
      (accepted : ∀ x ∈ before, (x.1.check x.2 resources.length).Accepts ())
      (inverted : job.Inverted resources.length) : Overflows jobs resources given
  /-- All parts are accepted one by one, no cycle is closed, and the bounds leave the range of times. -/
  | bounds (valid : Valid jobs resources given) (acyclic : Acyclic (Precedence.Among given))
      (exceeds : (draft jobs resources given []).Exceeds) : Overflows jobs resources given

/-- A valid instance stops exactly where its bounds leave the range of times. -/
lemma Valid.build_stops_iff (valid : Valid jobs resources given)
    (timely : ∀ job ∈ jobs.toList, job.deadline ≤ greatestTime) :
    (Problem.build jobs resources given).Stops fault ↔ fault = .overflow ∧
      Acyclic (Precedence.Among given) ∧ (draft jobs resources given []).Exceeds := by
  rcases valid.build_arranged with ⟨cyclic, refuses⟩ | ⟨acyclic, order, arranged, verdict⟩
  · exact iff_of_false (Verdict.Refuses.not_stops refuses) fun both => cyclic both.2.1
  · rw [verdict]
    refine (arranged.stops_iff timely).trans (and_congr_right fun _ => ?_)
    exact ⟨fun exceeds => ⟨acyclic, exceeds.congr rfl rfl⟩, fun both => both.2.congr rfl rfl⟩

omit [Scalar α] in
/-- A job at which the numbered jobs are split is one of the jobs. -/
lemma mem_of_split {before after : List (Job α × Nat)} {job : Job α} {id : Nat}
    (split : jobs.toList.zipIdx = before ++ (job, id) :: after) : job ∈ jobs.toList := by
  have there : (job, id) ∈ jobs.toList.zipIdx := by
    rw [split]
    exact List.mem_append_right _ List.mem_cons_self
  exact List.fst_mem_of_mem_zipIdx there

/-- An instance that stops does so at an inverted window if it is not valid. -/
lemma valid_or_inverted (timely : ∀ job ∈ jobs.toList, job.deadline ≤ greatestTime)
    (stops : (Problem.build jobs resources given).Stops fault) :
    Valid jobs resources given ∨ fault = .overflow ∧ Overflows jobs resources given := by
  unfold Problem.build at stops
  rcases Verdict.stops_bind.1 stops with here | ⟨_, resources_accepted, stops⟩
  · obtain ⟨_, ⟨r, id⟩, _, -, -, here⟩ := Verdict.stops_forM.1 here
    dsimp only at here
    split at here
    · exact absurd here Verdict.not_stops_throw
    · exact absurd here Verdict.not_stops_pure
  have each_resource : ∀ r ∈ resources, r.check = .ok () := by
    intro r member
    obtain ⟨id, there⟩ := List.mem_iff_getElem?.1 member
    have accepts := Verdict.accepts_forM.1 resources_accepted (r, id) (List.mk_mem_zipIdx_iff_getElem?.2 there)
    dsimp only at accepts
    split at accepts
    · exact absurd accepts Verdict.not_accepts_throw
    · assumption
  rcases Verdict.stops_bind.1 stops with here | ⟨_, jobs_accepted, stops⟩
  · obtain ⟨before, ⟨job, id⟩, after, split, accepted, here⟩ := Verdict.stops_forM.1 here
    have member := mem_of_split split
    obtain ⟨rfl, inverted⟩ := (Job.check_stops_iff (timely job member)).1 here
    exact .inr ⟨rfl, .window each_resource before after job id split accepted inverted⟩
  rcases Verdict.stops_bind.1 stops with here | ⟨_, arcs_accepted, -⟩
  · obtain ⟨_, q, _, -, -, here⟩ := Verdict.stops_forM.1 here
    exact absurd here Precedence.not_stops_check
  · exact .inl ⟨each_resource, Verdict.accepts_forM.1 jobs_accepted, Verdict.accepts_forM.1 arcs_accepted⟩

/-- An instance stops at an inverted window if all that is looked at before is accepted. -/
lemma build_stops_of_inverted (timely : ∀ job ∈ jobs.toList, job.deadline ≤ greatestTime)
    (each_resource : ∀ r ∈ resources, r.check = .ok ()) {before after : List (Job α × Nat)} {job : Job α}
    {id : Nat} (split : jobs.toList.zipIdx = before ++ (job, id) :: after)
    (accepted : ∀ x ∈ before, (x.1.check x.2 resources.length).Accepts ())
    (inverted : job.Inverted resources.length) : (Problem.build jobs resources given).Stops .overflow := by
  have member := mem_of_split split
  have here : (job.check id resources.length).Stops .overflow :=
    (Job.check_stops_iff (timely job member)).2 ⟨rfl, inverted⟩
  unfold Problem.build
  rw [Verdict.forM_bind fun x member => ?_]
  · exact Verdict.stops_bind.2 (.inl (Verdict.stops_forM.2 ⟨before, (job, id), after, split, accepted, here⟩))
  · obtain ⟨resource, id⟩ := x
    dsimp only
    rw [each_resource resource (List.fst_mem_of_mem_zipIdx member)]
    exact Verdict.accepts_pure.2 rfl

/-- **Range of times.**  If the deadlines are times, the only fault with which an instance stops is an overflow, and it
stops exactly where it leaves the range of times.  Any other instance is accepted or refused. -/
theorem build_overflows_iff (timely : ∀ job ∈ jobs.toList, job.deadline ≤ greatestTime) :
    (Problem.build jobs resources given).Stops fault ↔
      fault = .overflow ∧ Overflows jobs resources given := by
  constructor
  · intro stops
    rcases valid_or_inverted timely stops with valid | overflows
    · obtain ⟨rfl, acyclic, exceeds⟩ := (valid.build_stops_iff timely).1 stops
      exact ⟨rfl, .bounds valid acyclic exceeds⟩
    · exact overflows
  · rintro ⟨rfl, overflows⟩
    cases overflows with
    | window each_resource before after job id split accepted inverted =>
      exact build_stops_of_inverted timely each_resource split accepted inverted
    | bounds valid acyclic exceeds => exact (valid.build_stops_iff timely).2 ⟨rfl, acyclic, exceeds⟩

end Problem

end

namespace Problem

/-! ### Jobs that last as long as possible -/

/-- A job that lasts from the beginning to the end of time, and another one that lasts no time at all. -/
def endless : Array (Job ℚ) := #[⟨greatestTime, 0, greatestTime, []⟩, ⟨0, 0, greatestTime, []⟩]

/-- There is a feasible schedule in which both jobs start at the beginning.  Nevertheless the instance stops, since
the second job would leave to the first one a finish far past the greatest time. -/
theorem build_overflows_iff_endless :
    (∀ job ∈ endless.toList, job.deadline ≤ greatestTime) ∧
      (∃ starts, Feasible endless [⟨0, 1, 0⟩] starts) ∧
      (Problem.build endless [] [⟨0, 1, 0⟩]).Stops .overflow := by
  have timely : ∀ job ∈ endless.toList, job.deadline ≤ greatestTime := by decide
  have valid : Valid endless [] [⟨0, 1, 0⟩] := by
    refine ⟨fun r impossible => absurd impossible List.not_mem_nil, fun x member => ?_, fun q member => ?_⟩
    · simp only [endless, List.zipIdx_cons, List.zipIdx_nil, List.mem_cons, List.not_mem_nil,
        or_false] at member
      rcases member with rfl | rfl
      · with_unfolding_all rfl
      · with_unfolding_all rfl
    · rw [List.mem_singleton.1 member]
      rfl
  have only : ∀ q ∈ Precedence.merge [⟨0, 1, 0⟩], q = ⟨0, 1, 0⟩ := fun q member =>
    List.mem_singleton.1 (Precedence.mem_of_mem_merge member)
  have acyclic : Acyclic (Precedence.Among [⟨0, 1, 0⟩]) := by
    refine acyclic_of_lt id fun arc => ?_
    cases List.mem_singleton.1 arc
    decide
  have last : ∀ {k len}, Walk (Precedence.Among (Precedence.merge [⟨0, 1, 0⟩])) 1 k len →
      k = 1 ∧ len = 0 := by
    intro k len walk
    induction walk with
    | nil => exact ⟨rfl, rfl⟩
    | snoc _ arc ih =>
      cases only _ arc
      exact absurd ih.1 (by decide)
  obtain ⟨lag, member, -⟩ := Precedence.exists_mem_merge (p := ⟨0, 1, 0⟩) (List.mem_singleton_self _)
  obtain rfl : lag = 0 := congrArg Precedence.lag (only _ member)
  refine ⟨timely, ⟨#[0, 0], ?_⟩, (build_overflows_iff timely).2 ⟨rfl, .bounds valid acyclic
    (.finish ⟨0, 1, 0⟩ member greatestTime ?_ (.inr (by decide +kernel)))⟩⟩
  · refine ⟨rfl, ?_, ?_, ?_⟩ <;> decide +kernel
  · have own : greatestTime = (draft endless [] [⟨0, 1, 0⟩] []).deadlineOf 1 -
        (draft endless [] [⟨0, 1, 0⟩] []).durationOf 1 - 0 +
          (draft endless [] [⟨0, 1, 0⟩] []).durationOf 1 := by decide +kernel
    refine ⟨⟨1, 0, .nil, own⟩, ?_⟩
    rintro _ ⟨k, len, walk, rfl⟩
    obtain ⟨rfl, rfl⟩ := last walk
    exact own.le

/-- A job whose window ends at the beginning of time, before it begins. -/
def inverted : Job ℚ := ⟨0, 1, leastTime, []⟩

/-- An instance is not refused for a window that is shorter than the duration of its job if the window is
inverted. -/
theorem build_overflow_inverted :
    inverted.deadline < inverted.release + inverted.duration ∧
      ¬(Problem.build #[inverted] [] []).Refuses (.windowTooShort 0 1 leastTime 0) ∧
      (Problem.build #[inverted] [] []).Stops .overflow := by
  have stops : (Problem.build #[inverted] [] []).Stops .overflow := by with_unfolding_all rfl
  exact ⟨by decide, fun refuses => Verdict.Refuses.not_stops refuses stops, stops⟩

end Problem

end Leveling
