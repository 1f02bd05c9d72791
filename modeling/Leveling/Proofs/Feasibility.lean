import Leveling.Proofs.Bounds.Passes
import Leveling.Proofs.Exact
import Leveling.Proofs.Schedules

/-!
# Feasible instances

If the parts of an instance are accepted one by one, it can still be refused for two reasons: its
precedences close a cycle, or a job has no room between the bounds that follow from the precedences.
The second reason is the right one to look for.  No feasible schedule starts a job before the
bound of the early side, since a walk of precedences pushes the job up to it, and none starts it later
than the bound of the late side allows.  So without room there is no feasible schedule, and with
room both bounds are themselves such schedules.
-/

namespace Leveling

open Checked Network

variable {α : Type} {jobs : Array (Job α)} {given : List Precedence} {p : Problem α}

/-! ## Merging -/

/-- The kept precedences demand what the given ones demand. -/
lemma feasible_merge {starts : Array Int} :
    Feasible jobs (Precedence.merge given) starts ↔ Feasible jobs given starts := by
  constructor
  · rintro ⟨size, release, deadline, kept⟩
    refine ⟨size, release, deadline, fun q member => ?_⟩
    obtain ⟨lag, merged, le⟩ := Precedence.exists_mem_merge member
    have := kept _ merged
    dsimp only at this
    omega
  · rintro ⟨size, release, deadline, kept⟩
    exact ⟨size, release, deadline, fun q member => kept q (Precedence.mem_of_mem_merge member)⟩

namespace Problem

/-! ## Bounds and feasible starts -/

/-- An arranged instance of small numbers with the bounds that its passes compute. -/
structure Swept (p : Problem α) : Prop where
  arranged : p.Arranged
  ample : p.Ample
  pass : ∀ side, p.pass side = .ok ((Bounds.ofProblem p).table side).base

/-- The passes over an arranged instance of small numbers answer with its bounds. -/
lemma Arranged.exists_swept (arranged : p.Arranged) (ample : p.Ample) : ∃ earliest latest,
    p.pass .early = .ok earliest ∧ p.pass .late = .ok latest ∧
      Swept { p with earliestStart := earliest, latestFinish := latest } := by
  have answers := arranged.pass_answers (arranged.timely ample) ample
  obtain ⟨earliest, early, -⟩ := answers .early
  obtain ⟨latest, late, -⟩ := answers .late
  refine ⟨earliest, latest, early, late,
    ⟨arranged.jobs, arranged.precedences, arranged.increasing, arranged.order⟩, ample, fun side => ?_⟩
  cases side with
  | early => exact early
  | late => exact late

/-- The latest starts that deadlines and precedences imply. -/
def latestStart (p : Problem α) : Array Int :=
  Array.zipWith (fun finish duration => finish - duration) p.latestFinish p.durations

/-- All jobs have room between their bounds. -/
def HasRoom (p : Problem α) : Prop :=
  ∀ v < p.jobs.size, valueAt p.earliestStart v + p.durationOf v ≤ valueAt p.latestFinish v

section

variable {starts : Array Int} {v : Nat}

/-- The bounds of both sides have an entry for each job. -/
lemma Swept.size (swept : p.Swept) :
    p.earliestStart.size = p.jobs.size ∧ p.latestFinish.size = p.jobs.size := by
  have timely := swept.arranged.timely swept.ample
  have answers := swept.arranged.pass_answers timely swept.ample
  exact ⟨((answers .early).of_eq_ok (swept.pass .early)).1,
    ((answers .late).of_eq_ok (swept.pass .late)).1⟩

/-- The latest start of a job. -/
lemma Swept.valueAt_latestStart (swept : p.Swept) (v : Nat) :
    valueAt p.latestStart v = valueAt p.latestFinish v - p.durationOf v := by
  have size : p.durations.size = p.jobs.size := Array.size_map ..
  unfold latestStart durationOf
  rcases lt_or_ge v p.jobs.size with hv | hv
  · have hv' : v < p.latestFinish.size := lt_of_lt_of_eq hv swept.size.2.symm
    unfold valueAt
    simp [hv, hv', durations]
  · have behind : valueAt p.latestFinish v = 0 := valueAt_of_le (swept.size.2 ▸ hv)
    rw [behind, valueAt_jobs_of_le _ hv, valueAt_of_le]
    · rfl
    · rw [Array.size_zipWith, swept.size.2, size, Nat.min_self]
      exact hv

/-- The bounds are inside the windows, and no precedence demands more of them. -/
lemma Swept.bounds (swept : p.Swept) :
    (∀ v, p.releaseOf v ≤ valueAt p.earliestStart v) ∧
      (∀ v, valueAt p.latestFinish v ≤ p.deadlineOf v) ∧
      ∀ q ∈ p.precedences,
        valueAt p.earliestStart q.source + q.lag ≤ valueAt p.earliestStart q.target ∧
          valueAt p.latestFinish q.source - p.durationOf q.source + q.lag ≤
            valueAt p.latestFinish q.target - p.durationOf q.target := by
  have timely := swept.arranged.timely swept.ample
  obtain ⟨net, -, -, -, edges, -⟩ := swept.arranged.network
  have both := fun side => swept.arranged.sound_pass timely edges (swept.pass side)
  refine ⟨(both .early).1.above, fun v => ?_, fun q member => ?_⟩
  · have above := (both .late).1.above v
    dsimp only [Frame.floor, Frame.heights, Frame.height, Frame.limit, Arranged.frame] at above
    change p.durationOf v - p.deadlineOf v ≤ p.durationOf v - valueAt p.latestFinish v at above
    omega
  · have arc : net.HasArc q.source q.target q.lag := (hasArc_of_edges edges).2 member
    have late := ((both .late).2 (u := q.target) (w := q.source) arc).1
    refine ⟨((both .early).2 (u := q.source) (w := q.target) arc).1, ?_⟩
    change p.durationOf q.target - valueAt p.latestFinish q.target + q.lag ≤
      p.durationOf q.source - valueAt p.latestFinish q.source at late
    omega

/-- Walks of precedences push the feasible starts of a side at least to the bound of the side. -/
lemma Swept.heights_le (swept : p.Swept) (feasible : Feasible p.jobs p.precedences starts)
    (side : Side) (v : Nat) :
    (swept.arranged.frame (swept.arranged.timely swept.ample)).heights side
      ((Bounds.ofProblem p).table side).base v ≤ side.startOf (valueAt starts v) := by
  have timely := swept.arranged.timely swept.ample
  obtain ⟨net, -, -, -, edges, -⟩ := swept.arranged.network
  obtain ⟨sound, -⟩ := swept.arranged.sound_pass timely edges (swept.pass side)
  obtain ⟨k, len, walk, same⟩ := sound.attained v
  rw [same]
  refine walk.le_of_arcs (h := fun v => side.startOf (valueAt starts v)) (fun k => ?_) fun arc => ?_
  · obtain ⟨release, deadline⟩ := feasible.window k
    cases side with
    | early => exact release
    | late =>
      change p.durationOf k - p.deadlineOf k ≤ -valueAt starts k
      omega
  · cases side with
    | early => exact feasible.kept _ ((hasArc_of_edges edges).1 arc)
    | late =>
      have kept := feasible.kept _ ((hasArc_of_edges edges).1 arc)
      dsimp only [Side.startOf] at kept ⊢
      omega

/-- No feasible start is outside the bounds. -/
lemma Swept.mem_of_feasible (swept : p.Swept) (feasible : Feasible p.jobs p.precedences starts)
    (v : Nat) : valueAt p.earliestStart v ≤ valueAt starts v ∧
      valueAt starts v ≤ valueAt p.latestStart v := by
  have early := swept.heights_le feasible .early v
  have late := swept.heights_le feasible .late v
  change p.durationOf v - valueAt p.latestFinish v ≤ -valueAt starts v at late
  rw [swept.valueAt_latestStart]
  exact ⟨early, by omega⟩

/-- If there are feasible starts, all jobs have room. -/
lemma Swept.hasRoom (swept : p.Swept) (feasible : Feasible p.jobs p.precedences starts) :
    p.HasRoom := by
  intro v _
  obtain ⟨lower, upper⟩ := swept.mem_of_feasible feasible v
  rw [swept.valueAt_latestStart] at upper
  omega

/-- If all jobs have room, the earliest and the latest starts are feasible. -/
lemma Swept.feasible (swept : p.Swept) (room : p.HasRoom) :
    Feasible p.jobs p.precedences p.earliestStart ∧ Feasible p.jobs p.precedences p.latestStart := by
  obtain ⟨above, below, arcs⟩ := swept.bounds
  have own : ∀ v (hv : v < p.jobs.size), p.releaseOf v = p.jobs[v].release ∧
      p.durationOf v = p.jobs[v].duration ∧ p.deadlineOf v = p.jobs[v].deadline := fun v hv =>
    ⟨valueAt_jobs _ hv, valueAt_jobs _ hv, valueAt_jobs _ hv⟩
  have window : ∀ v (hv : v < p.jobs.size), p.jobs[v].release ≤ valueAt p.earliestStart v ∧
      valueAt p.earliestStart v + p.jobs[v].duration ≤ valueAt p.latestFinish v ∧
        valueAt p.latestFinish v ≤ p.jobs[v].deadline := by
    intro v hv
    obtain ⟨release, duration, deadline⟩ := own v hv
    rw [← release, ← duration, ← deadline]
    exact ⟨above v, room v hv, below v⟩
  constructor
  · refine ⟨swept.size.1, fun v hv => (window v hv).1, fun v hv => ?_, fun q member =>
      (arcs q member).1⟩
    obtain ⟨-, fits, deadline⟩ := window v hv
    omega
  · refine ⟨?_, fun v hv => ?_, fun v hv => ?_, fun q member => ?_⟩
    · rw [latestStart, Array.size_zipWith, swept.size.2]
      exact Nat.min_eq_left (Array.size_map ..).ge
    · obtain ⟨release, fits, -⟩ := window v hv
      rw [swept.valueAt_latestStart, (own v hv).2.1]
      omega
    · obtain ⟨-, -, deadline⟩ := window v hv
      rw [swept.valueAt_latestStart, (own v hv).2.1]
      omega
    · rw [swept.valueAt_latestStart, swept.valueAt_latestStart]
      exact (arcs q member).2

end

/-! ## The verdict on an instance -/

/-- A listed job is that of its position. -/
lemma getElem?_jobs {i : Nat} {job : Job α} (there : p.jobs.toList[i]? = some job) :
    i < p.jobs.size ∧ job.duration = p.durationOf i := by
  obtain ⟨hi, same⟩ := Array.getElem?_eq_some_iff.1 (Array.getElem?_toList ▸ there)
  exact ⟨hi, same ▸ (valueAt_jobs Job.duration hi).symm⟩

/-- The verdict on the room of the listed jobs, from position `id` on, if the earliest finishes are
times. -/
lemma checkRoom_cases {earliest latest : Array Int} {jobs : List (Job α)} :
    ∀ {id : Nat}, (∀ i job, jobs[i]? = some job → id + i < earliest.size ∧ id + i < latest.size ∧
      addTime (valueAt earliest (id + i)) job.duration =
        .ok (valueAt earliest (id + i) + job.duration)) →
      (checkRoom earliest latest jobs id).Accepts () ∨
        ∃ i job, jobs[i]? = some job ∧
          valueAt latest (id + i) < valueAt earliest (id + i) + job.duration ∧
          (checkRoom earliest latest jobs id).Refuses (.infeasibleWindow (id + i)
            (valueAt earliest (id + i)) (valueAt latest (id + i)) job.duration) := by
  induction jobs with
  | nil => exact fun _ => .inl rfl
  | cons job rest ih =>
    intro id each
    obtain ⟨inside, inside', sum⟩ := each 0 job rfl
    rw [Nat.add_zero] at inside inside' sum
    unfold checkRoom
    rw [(Verdict.accepts_lift.2 (fetch_valueAt inside)).bind,
      (Verdict.accepts_lift.2 (fetch_valueAt inside')).bind, (Verdict.accepts_lift.2 sum).bind]
    by_cases late : valueAt latest id < valueAt earliest id + job.duration
    · refine .inr ⟨0, job, rfl, late, ?_⟩
      rw [if_pos late]
      exact (Verdict.refuses_throw _).bind _
    · rw [if_neg late]
      have next : ∀ i, id + (i + 1) = id + 1 + i := fun i => by omega
      have others : ∀ i job', rest[i]? = some job' → id + 1 + i < earliest.size ∧
          id + 1 + i < latest.size ∧ addTime (valueAt earliest (id + 1 + i)) job'.duration =
            .ok (valueAt earliest (id + 1 + i) + job'.duration) := by
        intro i job' there
        have later := each (i + 1) job' (by rwa [List.getElem?_cons_succ])
        rwa [next] at later
      rcases ih others with accepts | ⟨i, job', there, late', refuses⟩
      · exact .inl accepts
      · refine .inr ⟨i + 1, job', by rwa [List.getElem?_cons_succ], ?_⟩
        rw [next]
        exact ⟨late', refuses⟩

/-- The earliest finishes are times. -/
lemma Swept.addTime_eq (swept : p.Swept) (v : Nat) :
    addTime (valueAt p.earliestStart v) (p.durationOf v) =
      .ok (valueAt p.earliestStart v + p.durationOf v) := by
  have timely := swept.arranged.timely swept.ample
  have pass := (swept.arranged.pass_answers timely swept.ample .early).of_eq_ok (swept.pass .early)
  have below : valueAt p.earliestStart v < 2 ^ 62 := pass.2 v
  have above := swept.bounds.1 v
  have release : 0 ≤ p.releaseOf v := (swept.arranged.frame timely).release_nonneg v
  have duration : 0 ≤ p.durationOf v := (swept.arranged.frame timely).duration_nonneg v
  have room : p.releaseOf v + p.durationOf v ≤ p.deadlineOf v := (swept.arranged.frame timely).room v
  have small : (p.precedences.map Precedence.lag).sum + p.deadlineOf v + p.durationOf v < 2 ^ 62 :=
    swept.arranged.add_lt_of_ample swept.ample v v
  have lags := swept.arranged.sum_lag_nonneg
  exact addTime_of_mem (by unfold leastTime; omega) (by unfold greatestTime; omega)

/-- The check of the room accepts if all jobs have room, and refuses otherwise. -/
lemma Swept.checkRoom_decides (swept : p.Swept) :
    (p.HasRoom ∧ (checkRoom p.earliestStart p.latestFinish p.jobs.toList 0).Accepts ()) ∨
      (¬p.HasRoom ∧ ∃ v start finish duration,
        (checkRoom p.earliestStart p.latestFinish p.jobs.toList 0).Refuses
          (.infeasibleWindow v start finish duration)) := by
  obtain ⟨size, size'⟩ := swept.size
  have each : ∀ i job, p.jobs.toList[i]? = some job → 0 + i < p.earliestStart.size ∧
      0 + i < p.latestFinish.size ∧ addTime (valueAt p.earliestStart (0 + i)) job.duration =
        .ok (valueAt p.earliestStart (0 + i) + job.duration) := by
    intro i job there
    obtain ⟨hi, duration⟩ := getElem?_jobs there
    rw [Nat.zero_add, duration]
    exact ⟨size ▸ hi, size' ▸ hi, swept.addTime_eq i⟩
  rcases checkRoom_cases each with accepts | ⟨i, job, there, late, refuses⟩
  · refine .inl ⟨fun v hv => ?_, accepts⟩
    have there : p.jobs.toList[v]? = some p.jobs[v] := by
      rw [Array.getElem?_toList, Array.getElem?_eq_getElem hv]
    have room := checkRoom_accepts accepts v _ there
    rwa [Nat.zero_add, (getElem?_jobs there).2] at room
  · obtain ⟨hi, duration⟩ := getElem?_jobs there
    refine .inr ⟨fun room => ?_, _, _, _, _, refuses⟩
    have fits := room i hi
    rw [Nat.zero_add, duration] at late
    omega

variable [Scalar α] {resources : List (Resource α)}

/-- Each part of an instance is accepted on its own. -/
structure Valid (jobs : Array (Job α)) (resources : List (Resource α)) (given : List Precedence) :
    Prop where
  each_resource : ∀ r ∈ resources, r.check = .ok ()
  each_job : ∀ x ∈ jobs.toList.zipIdx, (x.1.check x.2 resources.length).Accepts ()
  each_precedence : ∀ q ∈ given, (q.check jobs.size : Verdict (ProblemError α) Unit).Accepts ()

/-- The jobs and the precedences of a valid instance are proper. -/
lemma Valid.proper (valid : Valid jobs resources given) :
    (∀ job ∈ jobs.toList, job.Proper) ∧ ∀ q ∈ given, q.Proper jobs.size :=
  ⟨Job.proper_of_checks valid.each_job, fun q member =>
    Precedence.proper_of_check (valid.each_precedence q member)⟩

/-- An instance whose jobs are ordered but whose bounds are not computed yet. -/
def draft (jobs : Array (Job α)) (resources : List (Resource α)) (given : List Precedence)
    (order : List Nat) : Problem α :=
  ⟨jobs, resources, Precedence.merge given, order, #[], #[]⟩

/-- A draft of a valid instance is arranged if its order is one. -/
lemma Valid.arranged_draft (valid : Valid jobs resources given) {order : List Nat}
    (isOrder : IsOrder (Precedence.followers (Precedence.merge given)) jobs.size order) :
    (draft jobs resources given order).Arranged where
  jobs := valid.proper.1
  precedences q member := valid.proper.2 q (Precedence.mem_of_mem_merge member)
  increasing := Precedence.pairwise_merge given
  order := isOrder

/-- Merging makes no number of a valid instance larger. -/
lemma Valid.ample_draft (valid : Valid jobs resources given) (ample : totalTime jobs given < 2 ^ 62)
    (order : List Nat) : (draft jobs resources given order).Ample := by
  have lags := Precedence.sum_lag_merge_le fun q member => (valid.proper.2 q member).lag_nonneg
  unfold Ample totalTime draft
  unfold totalTime at ample
  dsimp only
  omega

/-- The verdict on a valid instance: a cycle is refused, and without one the bounds are computed for an arranged
draft and looked at. -/
lemma Valid.build_arranged (valid : Valid jobs resources given) :
    (¬Acyclic (Precedence.Among given) ∧
        (Problem.build jobs resources given).Refuses .circularPrecedence) ∨
      (Acyclic (Precedence.Among given) ∧ ∃ order, (draft jobs resources given order).Arranged ∧
        Problem.build jobs resources given = (do
          let earliest ← liftM ((draft jobs resources given order).pass .early)
          let latest ← liftM ((draft jobs resources given order).pass .late)
          checkRoom earliest latest jobs.toList 0
          return { draft jobs resources given order with
            earliestStart := earliest, latestFinish := latest })) := by
  have inside : ∀ q ∈ Precedence.merge given, q.Proper jobs.size := fun q member =>
    valid.proper.2 q (Precedence.mem_of_mem_merge member)
  obtain ⟨found, search, ordered, finds⟩ := Precedence.order_answers inside
  unfold Problem.build
  rw [Verdict.forM_bind fun x member => ?_, Verdict.forM_bind fun x member => ?_,
    Verdict.forM_bind fun x member => ?_]
  · dsimp only
    rw [(Verdict.accepts_lift.2 search).bind]
    cases found with
    | none =>
      refine .inl ⟨fun acyclic => ?_, Verdict.refuses_throw _⟩
      obtain ⟨order, impossible⟩ := finds (Precedence.acyclic_merge.2 acyclic)
      cases impossible
    | some order =>
      have isOrder := ordered order rfl
      have acyclic : Acyclic (Precedence.Among (Precedence.merge given)) :=
        isOrder.acyclic fun arc => ⟨(inside _ arc).source_lt, Precedence.mem_followers.2 ⟨_, arc⟩⟩
      refine .inr ⟨Precedence.acyclic_merge.1 acyclic, order, valid.arranged_draft isOrder, ?_⟩
      dsimp only
      simp only [Verdict.foldlM_lift]
      rfl
  · exact valid.each_precedence x member
  · exact valid.each_job x member
  · obtain ⟨resource, id⟩ := x
    dsimp only
    rw [valid.each_resource resource (List.fst_mem_of_mem_zipIdx member)]
    exact Verdict.accepts_pure.2 rfl

/-- The verdict on a valid instance of small numbers: a cycle is refused, and without one the verdict
is that on the room between the bounds that the passes compute. -/
lemma Valid.build_cases (valid : Valid jobs resources given)
    (ample : totalTime jobs given < 2 ^ 62) :
    (¬Acyclic (Precedence.Among given) ∧
        (Problem.build jobs resources given).Refuses .circularPrecedence) ∨
      (Acyclic (Precedence.Among given) ∧ ∃ p : Problem α, p.jobs = jobs ∧
        p.precedences = Precedence.merge given ∧ p.Swept ∧
          Problem.build jobs resources given = (do
            checkRoom p.earliestStart p.latestFinish p.jobs.toList 0
            return p)) := by
  refine valid.build_arranged.imp_right ?_
  rintro ⟨acyclic, order, arranged, verdict⟩
  obtain ⟨earliest, latest, early, late, swept⟩ := arranged.exists_swept (valid.ample_draft ample order)
  refine ⟨acyclic, _, rfl, rfl, swept, ?_⟩
  rw [verdict, (Verdict.accepts_lift.2 early).bind, (Verdict.accepts_lift.2 late).bind]
  rfl

/-- What an accepted instance says about the schedules for the jobs and the precedences from which
it was built. -/
structure Describes (p : Problem α) (jobs : Array (Job α)) (given : List Precedence) : Prop where
  same_jobs : p.jobs = jobs
  order_perm : p.order.Perm (List.range jobs.size)
  order_forward : ∀ q ∈ given, p.order.idxOf q.source < p.order.idxOf q.target
  feasible_earliest : Feasible jobs given p.earliestStart
  feasible_latest : Feasible jobs given p.latestStart
  least : ∀ starts, Feasible jobs given starts →
    ∀ v, valueAt p.earliestStart v ≤ valueAt starts v
  greatest : ∀ starts, Feasible jobs given starts →
    ∀ v, valueAt starts v ≤ valueAt p.latestStart v
  check_iff : ∀ s, (p.checkFeasible s).Accepts () ↔
    ∃ starts, s.starts = starts.map some ∧ Feasible jobs given starts

omit [Scalar α] in
/-- With room, the bounds are the extreme feasible starts, also for the given precedences. -/
lemma Swept.describes (swept : p.Swept) (built : p.Built) (room : p.HasRoom)
    (precedences : p.precedences = Precedence.merge given) : p.Describes p.jobs given := by
  have same : ∀ starts, Feasible p.jobs p.precedences starts ↔ Feasible p.jobs given starts :=
    fun starts => by rw [precedences, feasible_merge]
  have order := swept.arranged.order
  obtain ⟨earliest, latest⟩ := swept.feasible room
  refine ⟨rfl, ?_, fun q member => ?_, (same _).1 earliest, (same _).1 latest,
    fun starts feasible v => (swept.mem_of_feasible ((same _).2 feasible) v).1,
    fun starts feasible v => (swept.mem_of_feasible ((same _).2 feasible) v).2, fun s => ?_⟩
  · refine (List.perm_ext_iff_of_nodup order.nodup List.nodup_range).2 fun v => ?_
    rw [order.mem, List.mem_range]
  · obtain ⟨lag, merged, -⟩ := Precedence.exists_mem_merge member
    rw [← precedences] at merged
    exact order.ahead.idxOf_lt order.nodup
      ((order.mem _).2 (swept.arranged.precedences _ merged).source_lt)
      (Precedence.mem_followers.2 ⟨lag, merged⟩)
  · rw [built.checkFeasible_iff (swept.arranged.timely swept.ample)]
    simp only [same]

/-- The three verdicts on a valid instance of small numbers. -/
lemma Valid.verdict (valid : Valid jobs resources given) (ample : totalTime jobs given < 2 ^ 62) :
    (¬Acyclic (Precedence.Among given) ∧
        (Problem.build jobs resources given).Refuses .circularPrecedence) ∨
      Acyclic (Precedence.Among given) ∧
        ((∃ p, (Problem.build jobs resources given).Accepts p ∧ p.Describes jobs given) ∨
          (¬∃ starts, Feasible jobs given starts) ∧ ∃ v start finish duration,
            (Problem.build jobs resources given).Refuses
              (.infeasibleWindow v start finish duration)) := by
  rcases valid.build_cases ample with cyclic | ⟨acyclic, p, rfl, merged, swept, verdict⟩
  · exact .inl cyclic
  · refine .inr ⟨acyclic, ?_⟩
    rcases swept.checkRoom_decides with ⟨room, accepts⟩ | ⟨crowded, v, start, finish, duration, refuses⟩
    · have accepted : (Problem.build p.jobs resources given).Accepts p := by
        rw [verdict, accepts.bind]
        exact Verdict.accepts_pure.2 rfl
      exact .inl ⟨p, accepted, swept.describes (built_of_build accepted) room merged⟩
    · refine .inr ⟨?_, v, start, finish, duration, ?_⟩
      · rintro ⟨starts, feasible⟩
        exact crowded (swept.hasRoom (merged ▸ feasible_merge.2 feasible))
      · rw [verdict]
        exact refuses.bind _

/-- **Feasibility.**  A valid instance whose lags, durations and deadlines sum up to less than
`2 ^ 62` is refused for a cycle exactly if its precedences close one.  Otherwise it is accepted
exactly if there is a feasible schedule, and refused for a lack of room exactly if there is none.  An
accepted instance describes all feasible schedules. -/
theorem build_decides (valid : Valid jobs resources given) (ample : totalTime jobs given < 2 ^ 62) :
    ((Problem.build jobs resources given).Refuses .circularPrecedence ↔
        ¬Acyclic (Precedence.Among given)) ∧
      (Acyclic (Precedence.Among given) →
        ((∃ p, (Problem.build jobs resources given).Accepts p) ↔
          ∃ starts, Feasible jobs given starts) ∧
        ((∃ v start finish duration, (Problem.build jobs resources given).Refuses
            (.infeasibleWindow v start finish duration)) ↔
          ¬∃ starts, Feasible jobs given starts)) ∧
      ∀ p, (Problem.build jobs resources given).Accepts p → p.Describes jobs given := by
  rcases valid.verdict ample with ⟨cyclic, refuses⟩ | ⟨acyclic, ⟨p, accepts, describes⟩ |
    ⟨infeasible, v, start, finish, duration, refuses⟩⟩
  · refine ⟨iff_of_true refuses cyclic, fun acyclic => absurd acyclic cyclic, fun p accepts => ?_⟩
    exact absurd refuses accepts.not_refuses
  · have feasible : ∃ starts, Feasible jobs given starts := ⟨_, describes.feasible_earliest⟩
    refine ⟨iff_of_false accepts.not_refuses (not_not.2 acyclic), fun _ =>
      ⟨iff_of_true ⟨p, accepts⟩ feasible, iff_of_false ?_ (not_not.2 feasible)⟩, fun q accepts' => ?_⟩
    · rintro ⟨v, start, finish, duration, refuses⟩
      exact accepts.not_refuses refuses
    · exact accepts.unique accepts' ▸ describes
  · refine ⟨iff_of_false (fun refuses' => ?_) (not_not.2 acyclic), fun _ =>
      ⟨iff_of_false ?_ infeasible, iff_of_true ⟨_, _, _, _, refuses⟩ infeasible⟩, fun p accepts => ?_⟩
    · cases refuses.unique refuses'
    · rintro ⟨p, accepts⟩
      exact accepts.not_refuses refuses
    · exact absurd refuses accepts.not_refuses

/-- The jobs of the pair are valid with all precedences that are accepted one by one. -/
lemma valid_pair (given : List Precedence)
    (each : (given.all fun q => (q.check 2 : Verdict (ProblemError ℚ) Unit).isAccepted) = true) :
    Valid ExactScalar.pair.jobs ExactScalar.pair.resources given where
  each_resource r member := by
    rw [List.mem_singleton.1 member]
    with_unfolding_all rfl
  each_job x member := by
    simp only [ExactScalar.pair, List.zipIdx_cons, List.zipIdx_nil, List.mem_cons, List.not_mem_nil,
      or_false] at member
    rcases member with rfl | rfl
    · with_unfolding_all rfl
    · with_unfolding_all rfl
  each_precedence q member := by
    obtain ⟨_, accepts⟩ := Verdict.exists_accepts (List.all_eq_true.1 each q member)
    exact accepts

/-- The pair is accepted if one job has to wait for the other, also if this is said twice, refused for
a cycle if each has to wait for the other, and refused for a lack of room if the wait is too long. -/
theorem build_decides_pair :
    (∃ p, (Problem.build ExactScalar.pair.jobs ExactScalar.pair.resources
        [⟨0, 1, 1⟩, ⟨0, 1, 2⟩]).Accepts p ∧ p.Describes ExactScalar.pair.jobs [⟨0, 1, 1⟩, ⟨0, 1, 2⟩]) ∧
      (Problem.build ExactScalar.pair.jobs ExactScalar.pair.resources
        [⟨0, 1, 0⟩, ⟨1, 0, 0⟩]).Refuses .circularPrecedence ∧
      ∃ v start finish duration, (Problem.build ExactScalar.pair.jobs ExactScalar.pair.resources
        [⟨0, 1, 3⟩]).Refuses (.infeasibleWindow v start finish duration) := by
  have forward : ∀ lags : List Int,
      Acyclic (Precedence.Among (lags.map fun lag => ⟨0, 1, lag⟩)) := by
    intro lags
    refine acyclic_of_lt id fun arc => ?_
    obtain ⟨lag, -, same⟩ := List.mem_map.1 arc
    cases same
    decide
  refine ⟨?_, ?_, ?_⟩
  · obtain ⟨-, decided, describes⟩ := build_decides
      (valid_pair [⟨0, 1, 1⟩, ⟨0, 1, 2⟩] (by decide +kernel)) (by decide +kernel)
    obtain ⟨p, accepts⟩ := (decided (forward [1, 2])).1.2 ⟨#[0, 2], by
      refine ⟨rfl, ?_, ?_, ?_⟩ <;> decide +kernel⟩
    exact ⟨p, accepts, describes p accepts⟩
  · obtain ⟨circular, -⟩ := build_decides
      (valid_pair [⟨0, 1, 0⟩, ⟨1, 0, 0⟩] (by decide +kernel)) (by decide +kernel)
    refine circular.2 fun acyclic => acyclic 0 ?_
    have there : Joined (Precedence.Among [⟨0, 1, 0⟩, ⟨1, 0, 0⟩]) 0 1 := ⟨0, List.mem_cons_self⟩
    have back : Joined (Precedence.Among [⟨0, 1, 0⟩, ⟨1, 0, 0⟩]) 1 0 :=
      ⟨0, List.mem_cons_of_mem _ List.mem_cons_self⟩
    exact .tail (.single there) back
  · obtain ⟨-, decided, -⟩ := build_decides
      (valid_pair [⟨0, 1, 3⟩] (by decide +kernel)) (by decide +kernel)
    refine (decided (forward [3])).2.2 ?_
    rintro ⟨starts, feasible⟩
    have release : 0 ≤ valueAt starts 0 := feasible.release 0 (by decide)
    have deadline : valueAt starts 1 + 2 ≤ 4 := feasible.deadline 1 (by decide)
    have kept : valueAt starts 0 + 3 ≤ valueAt starts 1 := feasible.kept _ List.mem_cons_self
    omega

end Problem

end Leveling
