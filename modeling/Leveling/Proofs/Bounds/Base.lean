import Leveling.Proofs.Accepted
import Leveling.Proofs.Bounds.Tightening

/-!
# The base of an accepted instance

An accepted instance whose deadlines are times gives a frame, a linked network of permanent
arcs, and the bounds that follow from these arcs.  Here the bounds are shown to be settled on
both sides, with no arc that demands more of its end, and the arcs to leave room for all jobs.

Seen as heights, the two passes that compute the bounds do the same: they raise the end of an
arc to what the arc demands, for one arc after the other, and never raise a job again from
which an arc was looked at.
-/

namespace Leveling

open Checked Network

/-! ## Raising over arcs -/

section

variable {F : Frame} {net : Network} {side : Side} {value value' : Array Int} {u w : Nat}
  {lag : Int}

/-- Raises the bound of the end of an arc to what the arc demands.  The arc is given by the job from
which a bound travels, the job to which it travels, and its lag. -/
def raiseOver (side : Side) (durations bounds : Array Int) (arc : Nat × Nat × Int) :
    Checked (Array Int) := do
  let start ← side.origin durations arc.1 (← fetch bounds arc.1)
  let bound ← side.carry durations start arc.2.2 arc.2.1
  store bounds arc.2.1 (side.tighter (← fetch bounds arc.2.1) bound)

/-- The height at the end of the arc becomes the larger one of itself and of what the arc demands,
which is in the range of times. -/
lemma raiseOver_eq_ok (answer : raiseOver side F.durations value (u, w, lag) = .ok value') :
    value'.size = value.size ∧ (∀ x, F.heights side value' x =
      if x = w then max (F.heights side value w) (F.heights side value u + lag)
      else F.heights side value x) ∧
        F.boundOf side w (F.heights side value u + lag) ≤ greatestTime := by
  unfold raiseOver at answer
  obtain ⟨own, fetched, h₁⟩ := Checked.bind_eq_ok.1 answer
  obtain ⟨start, origin, h₂⟩ := Checked.bind_eq_ok.1 h₁
  obtain ⟨bound, carried, h₃⟩ := Checked.bind_eq_ok.1 h₂
  obtain ⟨old, fetched', stored⟩ := Checked.bind_eq_ok.1 h₃
  obtain ⟨-, rfl⟩ := valueAt_of_fetch fetched
  obtain ⟨-, rfl⟩ := valueAt_of_fetch fetched'
  obtain ⟨inside, rfl⟩ := store_eq_ok_iff.1 stored
  obtain rfl := Frame.origin_eq_ok origin
  obtain ⟨demanded, fits⟩ := Frame.carry_eq_ok carried
  refine ⟨Array.size_set _, fun x => ?_, ?_⟩
  · rw [heights_set, F.height_tighter, demanded]
    rfl
  · rw [← Frame.boundOf_height (F := F) (b := bound), demanded] at fits
    exact fits

/-- Raising over an arc answers if there is time for it, and is an overflow otherwise. -/
lemma raiseOver_cases (size : value.size = F.size) (hu : u < F.size) (hw : w < F.size)
    (lower : F.floor side u ≤ F.heights side value u) (nonneg : 0 ≤ lag) :
    (F.InTime side w (F.heights side value u + lag) ∧
        ∃ value', raiseOver side F.durations value (u, w, lag) = .ok value') ∨
      (¬F.InTime side w (F.heights side value u + lag) ∧
        raiseOver side F.durations value (u, w, lag) = .error .overflow) := by
  have hu' : u < value.size := lt_of_lt_of_eq hu size.symm
  have hw' : w < value.size := lt_of_lt_of_eq hw size.symm
  unfold raiseOver
  dsimp only
  rw [fetch_valueAt hu', ok_bind]
  by_cases inTime : F.InTime side w (F.heights side value u + lag)
  · refine .inl ⟨inTime, ?_⟩
    rw [inTime.origin hu lower nonneg, ok_bind, ← Frame.heights, inTime.carry hw lower nonneg, ok_bind,
      fetch_valueAt hw', ok_bind, store_of_lt _ hw']
    exact ⟨_, rfl⟩
  · refine .inr ⟨inTime, ?_⟩
    rcases Frame.origin_eq_or hu (valueAt value u) with start | stops
    · rw [start, ok_bind, ← Frame.heights, Frame.carry_of_not_inTime inTime hw, error_bind]
    · rw [stops, error_bind]

/-- The heights of the loosest bounds are sound. -/
lemma sound_limit (F : Frame) (net : Network) (side : Side) : Sound F net side (F.limit side) :=
  ⟨F.size_limit side, fun _ => Int.le_refl _, fun v => ⟨v, 0, .nil, (Int.add_zero _).symm⟩⟩

/-- Raising over an arc keeps the heights sound. -/
lemma Sound.raiseOver (sound : Sound F net side value) (arc : net.Leads side u w lag)
    (answer : raiseOver side F.durations value (u, w, lag) = .ok value') :
    Sound F net side value' := by
  obtain ⟨size, raised, -⟩ := raiseOver_eq_ok answer
  refine ⟨size.trans sound.size, fun x => ?_, fun x => ?_⟩
  · rw [raised]
    split
    · rename_i here
      subst here
      exact (sound.above x).trans (le_max_left _ _)
    · exact sound.above x
  · unfold Attained
    rw [raised]
    split
    · rename_i here
      subst here
      rcases max_choice (F.heights side value x) (F.heights side value u + lag) with same | same
      · rw [same]
        exact sound.attained x
      · obtain ⟨k, len, walk, there⟩ := sound.attained u
        exact ⟨k, len + lag, walk.snoc arc, by rw [same, there, Int.add_assoc]⟩
    · exact sound.attained x

/-- After raising over the arcs of a list, none of which leads to a job at which an earlier one
begins, no arc of the list demands more of its end, nor more than a time. -/
lemma Sound.raiseAll (acyclic : Acyclic net.HasArc) {l : List (Nat × Nat × Int)} :
    ∀ {value value' : Array Int}, (∀ arc ∈ l, net.Leads side arc.1 arc.2.1 arc.2.2) →
      l.Pairwise (fun a b => b.2.1 ≠ a.1) → Sound F net side value →
        l.foldlM (Leveling.raiseOver side F.durations) value = .ok value' →
          Sound F net side value' ∧
            (∀ x, F.heights side value x ≤ F.heights side value' x) ∧
            (∀ x, (∀ a ∈ l, a.2.1 ≠ x) → F.heights side value' x = F.heights side value x) ∧
            ∀ a ∈ l, F.heights side value' a.1 + a.2.2 ≤ F.heights side value' a.2.1 ∧
              F.boundOf side a.2.1 (F.heights side value' a.1 + a.2.2) ≤ greatestTime := by
  induction l with
  | nil =>
    intro value value' _ _ sound answer
    cases answer
    exact ⟨sound, fun _ => Int.le_refl _, fun _ _ => rfl, fun a member =>
      absurd member List.not_mem_nil⟩
  | cons first rest ih =>
    obtain ⟨u, w, lag⟩ := first
    intro value value' arcs ordered sound answer
    rw [List.foldlM_cons] at answer
    obtain ⟨middle, once, others⟩ := Checked.bind_eq_ok.1 answer
    obtain ⟨never, ordered⟩ := List.pairwise_cons.1 ordered
    have arc : net.Leads side u w lag := arcs _ List.mem_cons_self
    obtain ⟨-, raised, fits⟩ := raiseOver_eq_ok once
    obtain ⟨sound', rise, kept, enough⟩ :=
      ih (fun a member => arcs a (List.mem_cons_of_mem _ member)) ordered (sound.raiseOver arc once)
        others
    refine ⟨sound', fun x => ?_, fun x untouched => ?_, fun a member => ?_⟩
    · refine le_trans ?_ (rise x)
      rw [raised]
      split
      · rename_i here
        subst here
        exact le_max_left _ _
      · exact Int.le_refl _
    · rw [kept x fun a member => untouched a (List.mem_cons_of_mem _ member), raised,
        if_neg fun same => untouched _ List.mem_cons_self same.symm]
    · rcases List.mem_cons.1 member with rfl | member
      · -- the height at the beginning of the arc does not change any more
        have start : F.heights side value' u = F.heights side value u := by
          rw [kept u never, raised, if_neg ((acyclic_leads acyclic side).ne arc)]
        have demanded : F.heights side value u + lag ≤ F.heights side middle w := by
          rw [raised, if_pos rfl]
          exact le_max_right _ _
        dsimp only
        rw [start]
        exact ⟨demanded.trans (rise w), fits⟩
      · exact enough a member

end

/-- The edge of a precedence. -/
def Precedence.edge (q : Precedence) : Edge := ⟨q.source, q.target, q.lag, true⟩

namespace Problem

variable {α : Type} {p : Problem α} {net : Network} {side : Side} {u v w : Nat} {lag : Int}

/-! ## The frame -/

/-- The deadlines are times. -/
def Timely (p : Problem α) : Prop := ∀ job ∈ p.jobs.toList, job.deadline ≤ greatestTime

/-- The entry of a list that is computed from the jobs. -/
lemma valueAt_jobs {jobs : Array (Job α)} (f : Job α → Int) (hv : v < jobs.size) :
    valueAt (jobs.map f) v = f jobs[v] := by
  rw [valueAt, Array.getD_eq_getD_getElem?, Array.getElem?_map, Array.getElem?_eq_getElem hv]
  rfl

/-- There is no entry behind the last job. -/
lemma valueAt_jobs_of_le {jobs : Array (Job α)} (f : Job α → Int) (hv : jobs.size ≤ v) :
    valueAt (jobs.map f) v = 0 := by
  rw [valueAt_of_le]
  rwa [Array.size_map]

/-- The durations and the windows of an arranged instance. -/
def Arranged.frame (arranged : p.Arranged) (timely : p.Timely) : Frame where
  durations := p.jobs.map Job.duration
  releases := p.jobs.map Job.release
  deadlines := p.jobs.map Job.deadline
  size_releases := by rw [Array.size_map, Array.size_map]
  size_deadlines := by rw [Array.size_map, Array.size_map]
  duration_nonneg v := by
    rcases lt_or_ge v p.jobs.size with hv | hv
    · rw [valueAt_jobs _ hv]
      exact (arranged.jobs _ (Array.getElem_mem_toList hv)).duration_nonneg
    · rw [valueAt_jobs_of_le _ hv]
  release_nonneg v := by
    rcases lt_or_ge v p.jobs.size with hv | hv
    · rw [valueAt_jobs _ hv]
      exact (arranged.jobs _ (Array.getElem_mem_toList hv)).release_nonneg
    · rw [valueAt_jobs_of_le _ hv]
  room v := by
    rcases lt_or_ge v p.jobs.size with hv | hv
    · rw [valueAt_jobs _ hv, valueAt_jobs _ hv, valueAt_jobs _ hv]
      exact (arranged.jobs _ (Array.getElem_mem_toList hv)).room
    · rw [valueAt_jobs_of_le _ hv, valueAt_jobs_of_le _ hv, valueAt_jobs_of_le _ hv]
      exact Int.le_refl _
  deadline_le v := by
    rcases lt_or_ge v p.jobs.size with hv | hv
    · rw [valueAt_jobs _ hv]
      exact timely _ (Array.getElem_mem_toList hv)
    · rw [valueAt_jobs_of_le _ hv]
      decide

/-- The durations and the windows of an accepted instance. -/
def Built.frame (built : p.Built) (timely : p.Timely) : Frame := built.arranged.frame timely

/-- There are as many jobs in the frame as in the instance. -/
lemma Built.size_frame (built : p.Built) (timely : p.Timely) :
    (built.frame timely).size = p.jobs.size := Array.size_map ..

/-! ## The network -/

/-- The network of an arranged instance is linked, has the precedences as its edges, and carries no
flags. -/
lemma Arranged.network (arranged : p.Arranged) : (Network.ofProblem p).Answers fun net =>
    net.Linked ∧ net.numJobs = p.jobs.size ∧
      net.edges = (p.precedences.map Precedence.edge : List Edge) ∧ net.flagged = 0 := by
  unfold Network.ofProblem
  let Inv (rest : List Precedence) (net : Network) : Prop :=
    (∀ q ∈ rest, q.Proper p.jobs.size) ∧ net.Linked ∧ net.numJobs = p.jobs.size ∧
      net.edges + (rest.map Precedence.edge : List Edge) =
        (p.precedences.map Precedence.edge : List Edge) ∧ net.flagged = 0
  have start : Inv p.precedences (Network.empty p.jobs.size) := by
    refine ⟨arranged.precedences, linked_empty _, Array.size_replicate, ?_, flagged_empty _⟩
    rw [edges_empty, Multiset.zero_add]
  refine (Answers.foldlM_rest Inv ?_ start).imp ?_
  · rintro net q rest ⟨proper, linked, size, edges, clean⟩
    have first := proper q List.mem_cons_self
    refine (linked.insert (size ▸ first.source_lt) (size ▸ first.target_lt) q.lag true).imp ?_
    intro net' inserted
    refine ⟨fun q' member => proper q' (List.mem_cons_of_mem _ member), inserted.linked,
      inserted.numJobs.trans size, ?_, inserted.flagged.trans clean⟩
    rw [inserted.edges, ← edges, List.map_cons, ← Multiset.cons_coe, Multiset.cons_add,
      Multiset.add_cons]
    rfl
  · rintro net ⟨-, linked, size, edges, clean⟩
    rw [List.map_nil, Multiset.coe_nil, Multiset.add_zero] at edges
    exact ⟨linked, size, edges, clean⟩

/-- The arcs of the network of an instance are its precedences. -/
lemma hasArc_of_edges (edges : net.edges = (p.precedences.map Precedence.edge : List Edge)) :
    net.HasArc u w lag ↔ ⟨u, w, lag⟩ ∈ p.precedences := by
  unfold HasArc
  rw [edges]
  simp only [Multiset.mem_coe, List.mem_map, Precedence.edge, Edge.mk.injEq]
  constructor
  · rintro ⟨_, q, member, rfl, rfl, rfl, -⟩
    exact member
  · intro member
    exact ⟨true, _, member, rfl, rfl, rfl, rfl⟩

/-! ## The passes -/

/-- The arcs over which a bound of a side travels and that are looked at for one job. -/
def armsOf (p : Problem α) (side : Side) (v : Nat) : List (Nat × Nat × Int) :=
  match side with
  | .early => (Precedence.targetsOf p.precedences v).map fun (t, lag) => (v, t, lag)
  | .late => (Precedence.targetsOf p.precedences v).map fun (t, lag) => (t, v, lag)

/-- The arcs in the order in which a pass looks at them. -/
def sweep (p : Problem α) : Side → List (Nat × Nat × Int)
  | .early => p.order.flatMap (p.armsOf .early)
  | .late => p.order.reverse.flatMap (p.armsOf .late)

/-- A loop over the parts of a list is a loop over the list. -/
lemma foldlM_flatMap {β γ δ : Type} {g : β → γ → Checked β} {f : δ → List γ} :
    ∀ {l : List δ} {b : β},
      (l.flatMap f).foldlM g b = l.foldlM (fun b x => (f x).foldlM g b) b := by
  intro l
  induction l with
  | nil => exact fun {_} => rfl
  | cons x l ih =>
    intro b
    rw [List.flatMap_cons, List.foldlM_append, List.foldlM_cons]
    exact bind_congr fun b' => ih

/-- The pass that computes the bounds of a side. -/
def pass (p : Problem α) : Side → Checked (Array Int)
  | .early => p.order.foldlM (fun bounds v =>
      raiseTargets p.durations (Precedence.targetsOf p.precedences v) v bounds)
        (p.jobs.map Job.release)
  | .late => p.order.reverse.foldlM (fun bounds v =>
      lowerToTargets p.durations (Precedence.targetsOf p.precedences v) v bounds)
        (p.jobs.map Job.deadline)

/-- A pass raises over the arcs, one after the other. -/
lemma Arranged.foldlM_sweep (arranged : p.Arranged) (timely : p.Timely) (side : Side) :
    (p.sweep side).foldlM (raiseOver side (arranged.frame timely).durations)
      ((arranged.frame timely).limit side) = p.pass side := by
  cases side with
  | early =>
    unfold sweep armsOf
    rw [foldlM_flatMap]
    simp only [List.foldlM_map]
    rfl
  | late =>
    unfold sweep armsOf
    rw [foldlM_flatMap]
    simp only [List.foldlM_map]
    rfl

/-- The base bounds are computed by the passes. -/
lemma Built.pass_eq_ok (built : p.Built) (side : Side) :
    p.pass side = .ok ((Bounds.ofProblem p).table side).base := by
  cases side with
  | early => exact built.earliest
  | late => exact built.latest

/-- The passes look at the precedences. -/
lemma Arranged.mem_sweep (arranged : p.Arranged)
    (edges : net.edges = (p.precedences.map Precedence.edge : List Edge)) :
    (u, w, lag) ∈ p.sweep side ↔ net.Leads side u w lag := by
  have source : ∀ {x y lag}, (⟨x, y, lag⟩ : Precedence) ∈ p.precedences → x ∈ p.order :=
    fun member => (arranged.order.mem _).2 (arranged.precedences _ member).source_lt
  cases side with
  | early =>
    refine Iff.trans ?_ (hasArc_of_edges edges).symm
    simp only [sweep, armsOf, List.mem_flatMap, List.mem_map, Prod.mk.injEq, Prod.exists]
    constructor
    · rintro ⟨v, -, t, lag, member, rfl, rfl, rfl⟩
      exact Precedence.mem_targetsOf.1 member
    · intro member
      exact ⟨u, source member, w, lag, Precedence.mem_targetsOf.2 member, rfl, rfl, rfl⟩
  | late =>
    refine Iff.trans ?_ (hasArc_of_edges edges).symm
    simp only [sweep, armsOf, List.mem_flatMap, List.mem_map, Prod.mk.injEq, Prod.exists,
      List.mem_reverse]
    constructor
    · rintro ⟨v, -, t, lag, member, rfl, rfl, rfl⟩
      exact Precedence.mem_targetsOf.1 member
    · intro member
      exact ⟨w, source member, u, lag, Precedence.mem_targetsOf.2 member, rfl, rfl, rfl⟩

/-- The arcs of a pass join jobs, and their lags are not negative. -/
lemma Arranged.proper_sweep (arranged : p.Arranged) {a : Nat × Nat × Int} (member : a ∈ p.sweep side) :
    a.1 < p.jobs.size ∧ a.2.1 < p.jobs.size ∧ 0 ≤ a.2.2 := by
  obtain ⟨net, -, -, -, edges, -⟩ := arranged.network
  have arc := (arranged.mem_sweep edges).1 member
  cases side with
  | early =>
    have proper := arranged.precedences _ ((hasArc_of_edges edges).1 arc)
    exact ⟨proper.source_lt, proper.target_lt, proper.lag_nonneg⟩
  | late =>
    have proper := arranged.precedences _ ((hasArc_of_edges edges).1 arc)
    exact ⟨proper.target_lt, proper.source_lt, proper.lag_nonneg⟩

/-- No arc leads to a job at which an arc begins that was looked at earlier. -/
lemma Arranged.pairwise_sweep (arranged : p.Arranged) (side : Side) :
    (p.sweep side).Pairwise fun a b => b.2.1 ≠ a.1 := by
  obtain ⟨own, later⟩ := arranged.order.ahead.not_mem arranged.order.nodup
  have follower : ∀ {v t lag}, (t, lag) ∈ Precedence.targetsOf p.precedences v →
      t ∈ Precedence.followers p.precedences v := fun member => List.mem_map_of_mem member
  cases side with
  | early =>
    refine List.pairwise_flatMap.2 ⟨fun v hv => ?_, later.imp fun behind a ha b hb same => ?_⟩
    · refine List.pairwise_of_forall_mem_list fun a ha b hb same => ?_
      obtain ⟨_, -, rfl⟩ := List.mem_map.1 ha
      obtain ⟨⟨t, lag⟩, member, rfl⟩ := List.mem_map.1 hb
      dsimp only at same
      have inside := follower member
      rw [same] at inside
      exact own v hv inside
    · obtain ⟨_, -, rfl⟩ := List.mem_map.1 ha
      obtain ⟨⟨t, lag⟩, member, rfl⟩ := List.mem_map.1 hb
      dsimp only at same
      exact behind (same ▸ follower member)
  | late =>
    refine List.pairwise_flatMap.2 ⟨fun v hv => ?_, List.pairwise_reverse.2 <|
      later.imp fun behind a ha b hb same => ?_⟩
    · refine List.pairwise_of_forall_mem_list fun a ha b hb same => ?_
      obtain ⟨⟨t, lag⟩, member, rfl⟩ := List.mem_map.1 ha
      obtain ⟨_, -, rfl⟩ := List.mem_map.1 hb
      dsimp only at same
      have inside := follower member
      rw [← same] at inside
      exact own v (List.mem_reverse.1 hv) inside
    · obtain ⟨⟨t, lag⟩, member, rfl⟩ := List.mem_map.1 ha
      obtain ⟨_, -, rfl⟩ := List.mem_map.1 hb
      dsimp only at same
      exact behind (same ▸ follower member)

/-! ## The base -/

/-- The room of the listed jobs, from position `id` on. -/
lemma checkRoom_accepts {earliest latest : Array Int} {jobs : List (Job α)} :
    ∀ {id : Nat}, (checkRoom earliest latest jobs id).Accepts () →
      ∀ (i : Nat) (job : Job α), jobs[i]? = some job →
        valueAt earliest (id + i) + job.duration ≤ valueAt latest (id + i) := by
  induction jobs with
  | nil => exact fun _ i job impossible => by simp at impossible
  | cons first rest ih =>
    intro id accepts i job there
    unfold checkRoom at accepts
    obtain ⟨start, fetched, h₁⟩ := Verdict.accepts_bind.1 accepts
    obtain ⟨finish, fetched', h₂⟩ := Verdict.accepts_bind.1 h₁
    obtain ⟨least, sum, h₃⟩ := Verdict.accepts_bind.1 h₂
    obtain ⟨fits, others⟩ := Verdict.accepts_guard.1 h₃
    obtain ⟨-, rfl⟩ := valueAt_of_fetch (Verdict.accepts_lift.1 fetched)
    obtain ⟨-, rfl⟩ := valueAt_of_fetch (Verdict.accepts_lift.1 fetched')
    have exact_sum := addTime_eq_ok (Verdict.accepts_lift.1 sum)
    cases i with
    | zero =>
      obtain rfl := Option.some.inj there
      rw [Nat.add_zero]
      omega
    | succ i =>
      have later := ih others i job there
      rwa [Nat.add_assoc, Nat.add_comm 1 i] at later

/-- The room of each job between its base bounds. -/
lemma Built.room_base [Scalar α] (built : p.Built) (v : Nat) (hv : v < p.jobs.size) :
    valueAt p.earliestStart v + valueAt (p.jobs.map Job.duration) v ≤ valueAt p.latestFinish v := by
  have there : p.jobs.toList[v]? = some p.jobs[v] := by
    rw [Array.getElem?_toList, Array.getElem?_eq_getElem hv]
  have room := checkRoom_accepts built.room v _ there
  rwa [Nat.zero_add, ← valueAt_jobs Job.duration hv] at room

/-- What is known of the base of an accepted instance: its frame, its network and its bounds. -/
structure Base (p : Problem α) (F : Frame) (net : Network) : Prop where
  durations : F.durations = p.jobs.map Job.duration
  limit : ∀ side, F.limit side = ((Bounds.ofProblem p).table side).limit
  edges : net.edges = (p.precedences.map Precedence.edge : List Edge)
  roomy : Roomy F net
  sound : ∀ side, Sound F net side ((Bounds.ofProblem p).table side).base
  arcs : ∀ {side u w lag}, net.Leads side u w lag →
    F.heights side ((Bounds.ofProblem p).table side).base u + lag ≤
      F.heights side ((Bounds.ofProblem p).table side).base w
  fits : Fits F net ((Bounds.ofProblem p).table .late).base
  clean : net.flagged = 0

/-- The precedences of an arranged instance close no cycle. -/
lemma Arranged.acyclic (arranged : p.Arranged)
    (edges : net.edges = (p.precedences.map Precedence.edge : List Edge)) : Acyclic net.HasArc := by
  refine arranged.order.acyclic fun arc => ?_
  have member := (hasArc_of_edges edges).1 arc
  exact ⟨(arranged.precedences _ member).source_lt, Precedence.mem_followers.2 ⟨_, member⟩⟩

/-- The bounds that a pass computes are sound, and no arc demands more of its end, nor more than a
time. -/
lemma Arranged.sound_pass (arranged : p.Arranged) (timely : p.Timely) {bounds : Array Int}
    (edges : net.edges = (p.precedences.map Precedence.edge : List Edge))
    (answer : p.pass side = .ok bounds) :
    Sound (arranged.frame timely) net side bounds ∧ ∀ {u w lag}, net.Leads side u w lag →
      (arranged.frame timely).heights side bounds u + lag ≤
          (arranged.frame timely).heights side bounds w ∧
        (arranged.frame timely).boundOf side w
          ((arranged.frame timely).heights side bounds u + lag) ≤ greatestTime := by
  rw [← arranged.foldlM_sweep timely side] at answer
  obtain ⟨sound, -, -, enough⟩ := (sound_limit _ net side).raiseAll (arranged.acyclic edges)
    (fun _ member => (arranged.mem_sweep edges).1 member) (arranged.pairwise_sweep side) answer
  exact ⟨sound, fun arc => enough _ ((arranged.mem_sweep edges).2 arc)⟩

/-- The base bounds are sound, and no arc demands more of its end, nor more than a time. -/
lemma Built.sound_base [Scalar α] (built : p.Built) (timely : p.Timely)
    (edges : net.edges = (p.precedences.map Precedence.edge : List Edge)) (side : Side) :
    Sound (built.frame timely) net side ((Bounds.ofProblem p).table side).base ∧
      ∀ {u w lag}, net.Leads side u w lag →
        (built.frame timely).heights side ((Bounds.ofProblem p).table side).base u + lag ≤
            (built.frame timely).heights side ((Bounds.ofProblem p).table side).base w ∧
          (built.frame timely).boundOf side w
            ((built.frame timely).heights side ((Bounds.ofProblem p).table side).base u + lag) ≤
              greatestTime :=
  built.arranged.sound_pass timely edges (built.pass_eq_ok side)

/-- An accepted instance whose deadlines are times has a base. -/
lemma Built.base [Scalar α] (built : p.Built) (timely : p.Timely) :
    (Network.ofProblem p).Answers fun net => net.numJobs = p.jobs.size ∧
      Base p (built.frame timely) net := by
  refine built.arranged.network.imp fun net ⟨linked, size, edges, clean⟩ => ⟨size, ?_⟩
  have acyclic := built.arranged.acyclic edges
  have nonneg : ∀ {u w lag}, net.HasArc u w lag → 0 ≤ lag := fun arc =>
    (built.precedences _ ((hasArc_of_edges edges).1 arc)).lag_nonneg
  have both := built.sound_base timely edges
  refine ⟨rfl, fun side => by cases side <;> rfl, edges,
    ⟨linked, size.trans (built.size_frame timely).symm, acyclic, nonneg, fun {k v len} walk => ?_⟩,
    fun side => (both side).1, fun arc => ((both _).2 arc).1, fun arc => ((both .late).2 arc).2,
    clean⟩
  cases walk with
  | nil =>
    have room := (built.frame timely).room k
    omega
  | snoc walk last =>
    -- a chain of arcs pushes its last job no further than to the base bound of the early side
    have early := (walk.snoc last).le_of_arcs (both .early).1.above
      fun arc => ((both .early).2 arc).1
    have arc : net.Leads .early _ v _ := last
    have room := built.room_base v (size ▸ (linked.lt_of_leads arc).2)
    have late := (both .late).1.above v
    dsimp only [Frame.floor, Frame.heights, Frame.height, Frame.limit] at early late
    have same : valueAt (built.frame timely).durations v =
        valueAt (p.jobs.map Job.duration) v := rfl
    have first : ((Bounds.ofProblem p).table .early).base = p.earliestStart := rfl
    have last : ((Bounds.ofProblem p).table .late).base = p.latestFinish := rfl
    rw [first] at early
    rw [last] at late
    omega

end Problem

end Leveling
