import Leveling.Proofs.Bounds.Relaxing
import Leveling.Proofs.Network.Queries
import Leveling.Search.Deletion
import Mathlib.Algebra.Group.Action.Defs
import Mathlib.Algebra.Order.BigOperators.Group.List
import Mathlib.Algebra.Order.Ring.Nat

/-!
# The worklist of a deletion search

When the bound of a job may have changed, a deletion search computes it anew, without the marked arcs.  If
it has changed indeed, the visited jobs behind the job go on a worklist, and their bounds are computed next.
Bounds become tighter where a mark was cleared and looser where arcs were marked, so one bound may move to
and fro while the worklist is worked off, and its job may come up many times.

Still the worklist becomes empty, because the arcs close no cycle: each job can pay for all jobs that are
looked at on its account, and there are at most as many of them behind each job as there are arcs.  And when
it is empty each job that was looked at has the bound that its unmarked arcs imply, since a job whose
neighbours in front have changed is looked at once more.  To say so, the jobs that are looked at are listed.

Nothing is asked of the bounds but that there is one for each job.  They may have nothing to do with the
network, so heights would be of no use here: what arcs imply is stated of the bounds themselves.  If one of
them leaves the range of times the computation stops, unless the search is *sheltered* from that.
-/

namespace Leveling

open Checked Network

/-! ## The number of arcs -/

namespace Network

variable {net net' : Network} {side : Side} {u v w : Nat} {lag : Int}

/-- It can be decided whether a job is visited. -/
instance (visited : Array Bool) (v : Nat) : Decidable (Visited visited v) :=
  inferInstanceAs (Decidable (visited[v]? = some true))

/-- No list has more entries than there are altogether. -/
lemma lengthAt_le {β : Type} {lists : Array (Array β)} (hv : v < lists.size) :
    lengthAt lists v ≤ tally (fun _ _ => true) lists := by
  rw [← tally_row hv, ← countP_entries, ← length_entries]
  exact List.countP_le_length

/-- The lengths of the lists add up to the number of their entries. -/
lemma foldl_size {β : Type} :
    ∀ (l : List (Array β)) (n k : Nat), l.foldl (fun n list => n + list.size) n =
      n + weightFrom (fun _ list => list.toList.countP fun _ => true) k l
  | [], _, _ => rfl
  | list :: l, n, k => by
    rw [List.foldl_cons, foldl_size l _ (k + 1), weightFrom, List.countP_true, Array.length_toList,
      Nat.add_assoc]

/-- The size of a linked network is the recorded number of arcs. -/
lemma Linked.size_eq (linked : net.Linked) : net.size = net.arcCount := by
  rw [← linked.arcs]
  unfold Network.size
  rw [← Array.foldl_toList, foldl_size _ 0 0, Nat.zero_add]
  rfl

/-- A job has no more neighbours than there are arcs. -/
lemma Linked.length_onward (linked : net.Linked) (side : Side) (hv : v < net.numJobs) :
    (net.onward side v).Answers fun l => l.length ≤ net.size := by
  rw [linked.size_eq]
  cases side with
  | early =>
    unfold Network.onward
    rw [fetch_of_lt hv, ok_bind]
    refine .pure ?_
    rw [List.length_map, Array.length_toList, ← linked.arcs, ← lengthAt_of_lt hv]
    exact lengthAt_le hv
  | late =>
    have hv' : v < net.incoming.size := lt_of_lt_of_eq hv linked.size.symm
    obtain ⟨l, answer, -⟩ := linked.onward .late hv
    refine ⟨l, answer, ?_⟩
    unfold Network.onward at answer
    rw [fetch_of_lt hv', ok_bind] at answer
    dsimp only
    rw [length_of_mapM answer, Array.length_toList, ← linked.counterparts, ← lengthAt_of_lt hv']
    exact lengthAt_le hv'

/-! ## Arcs that are not marked -/

/-- A bound of a side travels from `u` to `w` over an arc of lag `lag` that is not marked. -/
def Unmarked (net : Network) (side : Side) (u w : Nat) (lag : Int) : Prop :=
  ∃ a, net.Step side u w a ∧ a.marked = false ∧ a.lag = lag

/-- An arc that is not marked is an arc. -/
lemma Unmarked.leads (arc : net.Unmarked side u w lag) : net.Leads side u w lag := by
  obtain ⟨a, step, -, same⟩ := arc
  exact leads_iff.2 ⟨a, step, same⟩

/-! ## Allowances -/

/-- What a job is allowed to pay for: itself, and all jobs that are looked at on its account. -/
noncomputable def allowance (net : Network) (side : Side) (v : Nat) : Nat :=
  (net.size + 1) ^ (net.numJobs - rank (net.Leads side) net.numJobs v)

/-- Each job can pay for itself. -/
lemma allowance_pos (net : Network) (side : Side) (v : Nat) : 0 < net.allowance side v :=
  Nat.pow_pos (Nat.succ_pos _)

/-- No job is allowed more than the bound for a whole search. -/
lemma allowance_le (net : Network) (side : Side) (v : Nat) :
    net.allowance side v ≤ net.walkBound :=
  Nat.pow_le_pow_right (Nat.succ_pos _) (Nat.sub_le _ _)

/-- A job can pay for its neighbours and for itself. -/
lemma allowance_next (acyclic : Acyclic net.HasArc) (hv : v < net.numJobs) {next : List Nat}
    (short : next.length ≤ net.size) (behind : ∀ w ∈ next, ∃ lag, net.Leads side v w lag) :
    (next.map (net.allowance side)).sum < net.allowance side v := by
  have acyclic := acyclic_leads acyclic side
  have below := acyclic.rank_lt_of_lt hv
  obtain ⟨k, exponent⟩ : ∃ k, net.numJobs - rank (net.Leads side) net.numJobs v = k + 1 :=
    ⟨net.numJobs - rank (net.Leads side) net.numJobs v - 1, by omega⟩
  have each : ∀ x ∈ next.map (net.allowance side), x ≤ (net.size + 1) ^ k := by
    intro x member
    obtain ⟨w, listed, rfl⟩ := List.mem_map.1 member
    obtain ⟨lag, arc⟩ := behind w listed
    have higher := acyclic.rank_lt arc hv
    exact Nat.pow_le_pow_right (Nat.succ_pos _) (by omega)
  have total := List.sum_le_card_nsmul _ _ each
  have positive : 0 < (net.size + 1) ^ k := Nat.pow_pos (Nat.succ_pos _)
  rw [List.length_map, smul_eq_mul] at total
  unfold allowance
  rw [exponent, Nat.pow_succ]
  calc (next.map (net.allowance side)).sum
      ≤ next.length * (net.size + 1) ^ k := total
    _ ≤ net.size * (net.size + 1) ^ k := Nat.mul_le_mul_right _ short
    _ < net.size * (net.size + 1) ^ k + (net.size + 1) ^ k := Nat.lt_add_of_pos_right positive
    _ = (net.size + 1) ^ k * (net.size + 1) := by
      rw [Nat.mul_succ, Nat.mul_comm]

end Network

/-! ## Tightest bounds -/

namespace Side

variable {side : Side} {u w : Nat} {bound lag : Int} {durations : Array Int}

/-- The bound that job `w` gets over an arc of the given lag from job `u`, whose own bound is `bound`. -/
def reach (side : Side) (durations : Array Int) (u : Nat) (bound lag : Int) (w : Nat) : Int :=
  match side with
  | .early => bound + lag
  | .late => bound - valueAt durations u - lag + valueAt durations w

/-- The tightest one of some bounds: the greatest on the early side, and the least on the late side. -/
def IsTightest (side : Side) (bounds : Set Int) (x : Int) : Prop :=
  match side with
  | .early => IsGreatest bounds x
  | .late => IsLeast bounds x

/-- A single bound is the tightest one. -/
lemma isTightest_single {P : Int → Prop} (none : ∀ y, ¬P y) :
    side.IsTightest {y | y = bound ∨ P y} bound := by
  cases side with
  | early => exact ⟨.inl rfl, fun y member => (member.resolve_right (none y)).le⟩
  | late => exact ⟨.inl rfl, fun y member => (member.resolve_right (none y)).ge⟩

/-- The tighter of two bounds and others: each of the two is one of them. -/
lemma IsTightest.of_tighter {P : Int → Prop} {x y r : Int}
    (h : side.IsTightest {z | z = side.tighter x y ∨ P z} r) :
    side.IsTightest {z | z = x ∨ z = y ∨ P z} r := by
  cases side with
  | early => exact isGreatest_max h
  | late => exact isGreatest_max (β := Intᵒᵈ) h

/-- The bound that a job gets over an arc is computed, or it leaves the range of times. -/
lemma reach_eq_or (hu : u < durations.size) (hw : w < durations.size) :
    (do
      let start ← side.origin durations u bound
      side.carry durations start lag w) = .ok (side.reach durations u bound lag w) ∨
    (do
      let start ← side.origin durations u bound
      side.carry durations start lag w) = .error .overflow := by
  cases side with
  | early => exact asTime_eq_or _
  | late =>
    unfold Side.origin Side.carry subTime
    rw [fetch_valueAt hu, ok_bind]
    rcases asTime_eq_or (bound - valueAt durations u) with answer | stops
    · rw [answer, ok_bind]
      rcases asTime_eq_or (bound - valueAt durations u - lag) with answer' | stops
      · rw [answer', ok_bind, fetch_valueAt hw, ok_bind]
        exact asTime_eq_or _
      · rw [stops]
        exact .inr rfl
    · rw [stops]
      exact .inr rfl

end Side

namespace DeletionSearch

variable {safe : Prop} {net net' : Network} {b : Bounds} {side : Side} {s s' : DeletionSearch} {n v : Nat}

/-- What a search needs to come to an end: the arcs close no cycle, and each job has its bounds. -/
structure Explorable (net : Network) (b : Bounds) (side : Side) : Prop where
  linked : net.Linked
  acyclic : Acyclic net.HasArc
  durations : b.durations.size = net.numJobs
  base : (b.table side).base.size = net.numJobs
  value : (b.table side).value.size = net.numJobs

/-- Flags play no part in what a search needs. -/
lemma Explorable.alike (ready : Explorable net b side) (alike : Alike net net') :
    Explorable net' b side where
  linked := alike.linked ready.linked
  acyclic := alike.hasArc ▸ ready.acyclic
  durations := ready.durations.trans alike.numJobs.symm
  base := ready.base.trans alike.numJobs.symm
  value := ready.value.trans alike.numJobs.symm

/-! ## Jobs that are known -/

/-- The lists of a state have an entry for each job, and the jobs that a state knows are touched. -/
structure Sized (n : Nat) (s : DeletionSearch) : Prop where
  visited : s.visited.size = n
  expanded : s.expanded.size = n
  current : s.current.size = n
  touched_lt : ∀ v ∈ s.touched, v < n
  touched : ∀ v, Visited s.visited v ∨ Visited s.expanded v → v ∈ s.touched

/-- Before the first search no job is known. -/
lemma sized_empty (jobs maxDepth penalty : Nat) : Sized jobs (empty jobs maxDepth penalty) where
  visited := Array.size_replicate
  expanded := Array.size_replicate
  current := Array.size_replicate
  touched_lt v member := absurd member List.not_mem_nil
  touched v known := by
    have unknown : ¬Visited (Array.replicate jobs false) v := by
      unfold Visited
      rw [Array.getElem?_replicate]
      split <;> simp
    exact (known.elim unknown unknown).elim

/-- The bound of a job in the search. -/
def boundIn (s : DeletionSearch) (b : Bounds) (side : Side) (v : Nat) : Int :=
  if Visited s.visited v then valueAt s.current v else valueAt (b.table side).value v

/-- A visited job is a job. -/
lemma Sized.lt_of_visited (sized : s.Sized n) (known : Visited s.visited v) : v < n :=
  sized.touched_lt v (sized.touched v (.inl known))

/-- The bound of a job is looked up. -/
lemma Sized.boundOf (sized : s.Sized n) (size : (b.table side).value.size = n) (hv : v < n) :
    s.boundOf b side v = .ok (s.boundIn b side v) := by
  have inside : v < s.visited.size := lt_of_lt_of_eq hv sized.visited.symm
  have known : Visited s.visited v ↔ s.visited[v] = true := by
    rw [Visited, Array.getElem?_eq_getElem inside, Option.some_inj]
  unfold DeletionSearch.boundOf boundIn
  rw [fetch_of_lt inside, ok_bind]
  by_cases isVisited : s.visited[v] = true
  · rw [if_pos isVisited, if_pos (known.2 isVisited)]
    exact fetch_valueAt (lt_of_lt_of_eq hv sized.current.symm)
  · rw [if_neg isVisited, if_neg (mt known.1 isVisited)]
    exact fetch_valueAt (lt_of_lt_of_eq hv size.symm)

/-- The visited ones of the listed jobs. -/
lemma onlyVisited_eq {l : List Nat} (inside : ∀ v ∈ l, v < s.visited.size) :
    s.onlyVisited l = .ok (l.filter fun v => Visited s.visited v) := by
  induction l with
  | nil => rfl
  | cons v rest ih =>
    have hv := inside v List.mem_cons_self
    have known : Visited s.visited v ↔ s.visited[v] = true := by
      rw [Visited, Array.getElem?_eq_getElem hv, Option.some_inj]
    unfold onlyVisited
    rw [fetch_of_lt hv, ok_bind, ih fun w member => inside w (List.mem_cons_of_mem _ member),
      ok_bind]
    rw [List.filter_cons]
    by_cases isVisited : s.visited[v] = true
    · rw [if_pos isVisited, if_pos (decide_eq_true (known.2 isVisited))]
      rfl
    · rw [if_neg isVisited, if_neg (by simpa using mt known.1 isVisited)]
      rfl

/-- The visited jobs behind a job are found, and the job can pay for them. -/
lemma Sized.next (sized : s.Sized n) (size : net.numJobs = n) (linked : net.Linked)
    (acyclic : Acyclic net.HasArc) (hv : v < n) :
    (net.onward side v).Answers fun onward => ∃ next,
      s.onlyVisited (onward.map Prod.fst) = .ok next ∧ (∀ x ∈ next, Visited s.visited x) ∧
        (∀ {x lag}, net.Leads side v x lag → Visited s.visited x → x ∈ next) ∧
          (next.map (net.allowance side)).sum < net.allowance side v := by
  subst size
  refine ((linked.onward side hv).and (linked.length_onward side hv)).imp
    fun onward ⟨steps, short⟩ => ?_
  have inside : ∀ x ∈ onward.map Prod.fst, x < s.visited.size := by
    intro x member
    obtain ⟨⟨w, a⟩, listed, rfl⟩ := List.mem_map.1 member
    rw [sized.visited]
    exact (linked.lt_of_step ((steps w a).1 listed)).2
  refine ⟨_, onlyVisited_eq inside, fun x member => of_decide_eq_true (List.mem_filter.1 member).2,
    fun {x lag} arc known => ?_, allowance_next acyclic hv ?_ fun x member => ?_⟩
  · obtain ⟨a, step, -⟩ := leads_iff.1 arc
    exact List.mem_filter.2 ⟨List.mem_map.2 ⟨(x, a), (steps x a).2 step, rfl⟩, decide_eq_true known⟩
  · exact (List.length_filter_le _ _).trans (by rwa [List.length_map])
  · obtain ⟨⟨w, a⟩, listed, rfl⟩ := List.mem_map.1 (List.mem_filter.1 member).1
    exact ⟨a.lag, leads_iff.2 ⟨a, (steps w a).1 listed, rfl⟩⟩

/-! ## Looking at a job -/

/-- The bounds that are implied for a job: its base bound, and what the bounds of its neighbours reach
over the arcs that are not marked. -/
def impliedBounds (s : DeletionSearch) (net : Network) (b : Bounds) (side : Side) (v : Nat) :
    Set Int :=
  {y | y = valueAt (b.table side).base v ∨ ∃ u lag, net.Unmarked side u v lag ∧
    y = side.reach b.durations u (s.boundIn b side u) lag v}

/-- The job has the tightest of the bounds that are implied for it. -/
def IsImplied (s : DeletionSearch) (net : Network) (b : Bounds) (side : Side) (v : Nat) : Prop :=
  side.IsTightest (s.impliedBounds net b side v) (valueAt s.current v)

/-- A property that shelters a search: if it is to be safe, the property lets every bound be computed that
an unmarked arc implies, and it is kept when the bound that is implied for a job is stored. -/
structure Sheltered (safe : Prop) (net : Network) (b : Bounds) (side : Side)
    (Fine : DeletionSearch → Prop) : Prop where
  reaches : safe → ∀ {s : DeletionSearch}, Fine s → ∀ {u w lag}, net.Unmarked side u w lag →
    (do
      let start ← side.origin b.durations u (s.boundIn b side u)
      side.carry b.durations start lag w) =
        .ok (side.reach b.durations u (s.boundIn b side u) lag w)
  stores : safe → ∀ {s : DeletionSearch}, Fine s → ∀ {v bound} (hv : v < s.current.size),
    Visited s.visited v → side.IsTightest (s.impliedBounds net b side v) bound →
      Fine { s with current := s.current.set v bound hv }

/-- A search that need not be safe is sheltered. -/
lemma sheltered_false : Sheltered False net b side fun _ => True := ⟨False.elim, False.elim⟩

variable {Fine : DeletionSearch → Prop}

/-- The tightest of a bound and of what listed neighbours imply is computed. -/
lemma Sized.implied_answersIf (sized : s.Sized net.numJobs) (ready : Explorable net b side)
    (shelter : Sheltered safe net b side Fine) (fine : safe → Fine s) {l : List (Nat × Arc)} :
    ∀ {bound : Int}, (∀ u a, (u, a) ∈ l → net.Step side u v a) →
      (s.implied b side v l bound).AnswersIf safe (side.IsTightest {y | y = bound ∨
        ∃ u a, (u, a) ∈ l ∧ a.marked = false ∧
          y = side.reach b.durations u (s.boundIn b side u) a.lag v}) := by
  induction l with
  | nil =>
    exact fun _ => .ok (Side.isTightest_single fun y ⟨_, _, impossible, _⟩ =>
      absurd impossible List.not_mem_nil)
  | cons first rest ih =>
    obtain ⟨u, a⟩ := first
    intro bound steps
    have rest_steps := fun u a member => steps u a (List.mem_cons_of_mem _ member)
    have step := steps u a List.mem_cons_self
    obtain ⟨hu, hv⟩ := ready.linked.lt_of_step step
    unfold DeletionSearch.implied
    cases marked : a.marked with
    | true =>
      rw [if_pos rfl]
      refine (ih rest_steps).imp fun r tightest => ?_
      simp only [exists_pair_cons, marked, Bool.true_eq_false, false_and, false_or]
      exact tightest
    | false =>
      have arc : net.Unmarked side u v a.lag := ⟨a, step, marked, rfl⟩
      rw [if_neg Bool.false_ne_true, sized.boundOf ready.value hu, ok_bind, ← bind_assoc]
      refine (AnswersIf.of_eq_or (P := (· = side.reach b.durations u (s.boundIn b side u) a.lag v))
        (Side.reach_eq_or (ready.durations ▸ hu) (ready.durations ▸ hv))
        (fun isSafe => shelter.reaches isSafe (fine isSafe) arc) rfl).bind fun carried reached => ?_
      rw [reached]
      refine (ih rest_steps).imp fun r tightest => ?_
      simp only [exists_pair_cons, marked, true_and]
      exact tightest.of_tighter

/-- The bound that a job gets when it is looked at is the tightest one that is implied for it. -/
lemma Sized.recompute_answersIf (sized : s.Sized net.numJobs) (ready : Explorable net b side)
    (shelter : Sheltered safe net b side Fine) (fine : safe → Fine s) (hv : v < net.numJobs) :
    (do
      let neighbours ← net.backward side v
      s.implied b side v neighbours (← fetch (b.table side).base v)).AnswersIf safe
        (side.IsTightest (s.impliedBounds net b side v)) := by
  refine (ready.linked.backward side hv).answersIf.bind fun l steps => ?_
  rw [fetch_valueAt (ready.base ▸ hv), ok_bind]
  refine (sized.implied_answersIf ready shelter fine fun u a => (steps u a).1).imp fun r tightest => ?_
  convert tightest using 1
  ext y
  refine or_congr Iff.rfl ⟨?_, ?_⟩
  · rintro ⟨u, lag, ⟨a, step, unmarked, rfl⟩, same⟩
    exact ⟨u, a, (steps u a).2 step, unmarked, same⟩
  · rintro ⟨u, a, member, unmarked, same⟩
    exact ⟨u, a.lag, ⟨a, (steps u a).1 member, unmarked, rfl⟩, same⟩

/-! ## Working off the worklist -/

/-- Computes the bounds of the waiting jobs and of those behind them anew, and lists the jobs in the order in
which they are looked at. -/
def settleListing (s : DeletionSearch) (net : Network) (b : Bounds) (side : Side) :
    (fuel : Nat) → (waiting : List Nat) → Checked (DeletionSearch × List Nat)
  | _, [] => .ok (s, [])
  | 0, _ :: _ => .error .unsettled
  | fuel + 1, v :: rest => do
    let neighbours ← net.backward side v
    let bound ← s.implied b side v neighbours (← fetch (b.table side).base v)
    if bound = (← fetch s.current v) then
      let (s, looked) ← settleListing s net b side fuel rest
      return (s, v :: looked)
    else
      let current ← store s.current v bound
      let onward ← net.onward side v
      let next ← s.onlyVisited (onward.map Prod.fst)
      let (s, looked) ← settleListing { s with current } net b side fuel (rest ++ next)
      return (s, v :: looked)

/-- Looking at the first of the waiting jobs, and then at the others. -/
lemma settle_cons {fuel : Nat} {rest : List Nat} :
    s.settle net b side (fuel + 1) (v :: rest) = (do
      let bound ← (do
        let neighbours ← net.backward side v
        s.implied b side v neighbours (← fetch (b.table side).base v))
      if bound = (← fetch s.current v) then s.settle net b side fuel rest else
        let current ← store s.current v bound
        let onward ← net.onward side v
        let next ← s.onlyVisited (onward.map Prod.fst)
        settle { s with current } net b side fuel (rest ++ next)) := by
  simp only [bind_assoc]
  rfl

/-- Looking at the first of the waiting jobs, and then at the others, with the list. -/
lemma settleListing_cons {fuel : Nat} {rest : List Nat} :
    s.settleListing net b side (fuel + 1) (v :: rest) = (do
      let bound ← (do
        let neighbours ← net.backward side v
        s.implied b side v neighbours (← fetch (b.table side).base v))
      if bound = (← fetch s.current v) then
        let r ← s.settleListing net b side fuel rest
        return (r.1, v :: r.2)
      else
        let current ← store s.current v bound
        let onward ← net.onward side v
        let next ← s.onlyVisited (onward.map Prod.fst)
        let r ← settleListing { s with current } net b side fuel (rest ++ next)
        return (r.1, v :: r.2)) := by
  simp only [bind_assoc]
  rfl

/-- Without the list it is the same computation. -/
lemma settleListing_matches :
    ∀ {fuel : Nat} {waiting : List Nat} {s : DeletionSearch},
      Matches (fun r s' => r.1 = s') (s.settleListing net b side fuel waiting)
        (s.settle net b side fuel waiting) := by
  intro fuel
  induction fuel with
  | zero =>
    intro waiting s
    cases waiting with
    | nil => exact rfl
    | cons v rest => exact rfl
  | succ fuel ih =>
    intro waiting s
    cases waiting with
    | nil => exact rfl
    | cons v rest =>
      rw [settleListing_cons, settle_cons]
      refine Matches.bind_same fun bound _ => Matches.bind_same fun old _ => ?_
      split
      · exact ih.map_left fun _ _ => id
      · refine Matches.bind_same fun current _ => Matches.bind_same fun onward _ => ?_
        exact Matches.bind_same fun next _ => ih.map_left fun _ _ => id

/-- The first round leaves a search and a worklist for the other rounds, with and without the list. -/
lemma exists_round {fuel : Nat} {rest looked : List Nat}
    (answer : s.settleListing net b side (fuel + 1) (v :: rest) = .ok (s', looked)) :
    ∃ (s₁ : DeletionSearch) (waiting others : List Nat),
      s₁.settleListing net b side fuel waiting = .ok (s', others) ∧ looked = v :: others ∧
        ∀ fuel' : Nat,
          s.settle net b side (fuel' + 1) (v :: rest) = s₁.settle net b side fuel' waiting := by
  rw [settleListing_cons] at answer
  obtain ⟨bound, computed, answer⟩ := bind_eq_ok.1 answer
  obtain ⟨old, fetched, answer⟩ := bind_eq_ok.1 answer
  split at answer
  · rename_i same
    obtain ⟨⟨s'', others⟩, listed, answer⟩ := bind_eq_ok.1 answer
    cases answer
    refine ⟨s, rest, others, listed, rfl, fun fuel' => ?_⟩
    rw [settle_cons, computed, ok_bind, fetched, ok_bind, if_pos same]
  · rename_i apart
    obtain ⟨current, stored, answer⟩ := bind_eq_ok.1 answer
    obtain ⟨onward, neighbours, answer⟩ := bind_eq_ok.1 answer
    obtain ⟨next, chosen, answer⟩ := bind_eq_ok.1 answer
    obtain ⟨⟨s'', others⟩, listed, answer⟩ := bind_eq_ok.1 answer
    cases answer
    refine ⟨{ s with current }, rest ++ next, others, listed, rfl, fun fuel' => ?_⟩
    rw [settle_cons, computed, ok_bind, fetched, ok_bind, if_neg apart, stored, ok_bind, neighbours,
      ok_bind, chosen, ok_bind]

/-- The worklist becomes empty after as many rounds as jobs are listed, and no earlier. -/
lemma settle_of_listing {s' : DeletionSearch} :
    ∀ {fuel : Nat} {waiting looked : List Nat} {s : DeletionSearch},
      s.settleListing net b side fuel waiting = .ok (s', looked) → ∀ fuel' : Nat,
        s.settle net b side fuel' waiting =
          if looked.length ≤ fuel' then .ok s' else .error .unsettled := by
  intro fuel waiting
  induction fuel generalizing waiting with
  | zero =>
    intro looked s answer fuel'
    cases waiting with
    | nil =>
      cases answer
      unfold settle
      exact (if_pos (Nat.zero_le fuel')).symm
    | cons v rest => cases answer
  | succ fuel ih =>
    intro looked s answer fuel'
    cases waiting with
    | nil =>
      cases answer
      unfold settle
      exact (if_pos (Nat.zero_le fuel')).symm
    | cons v rest =>
      obtain ⟨s₁, waiting, others, listed, rfl, round⟩ := exists_round answer
      cases fuel' with
      | zero => exact (if_neg (Nat.not_succ_le_zero _)).symm
      | succ fuel' =>
        rw [round, ih listed fuel']
        exact if_congr Nat.succ_le_succ_iff.symm rfl rfl

/-- The bounds of the job and of its neighbours in front are the same. -/
structure Untouched (net : Network) (b : Bounds) (side : Side) (s s' : DeletionSearch) (v : Nat) :
    Prop where
  own : s'.boundIn b side v = s.boundIn b side v
  before : ∀ {u lag}, net.Unmarked side u v lag → s'.boundIn b side u = s.boundIn b side u

/-- The bound of a visited job. -/
lemma boundIn_of_visited (known : Visited s.visited v) :
    s.boundIn b side v = valueAt s.current v := if_pos known

/-- The bounds after the bound of a visited job was stored. -/
lemma boundIn_set (known : Visited s.visited v) (hv : v < s.current.size) (bound : Int) (x : Nat) :
    boundIn { s with current := s.current.set v bound hv } b side x =
      if x = v then bound else s.boundIn b side x := by
  unfold boundIn
  dsimp only
  rw [valueAt_set]
  by_cases here : x = v
  · subst here
    rw [if_pos known, if_pos rfl, if_pos rfl]
  · rw [if_neg here, if_neg here]

/-- A job keeps the bound that is implied for it if it is untouched. -/
lemma IsImplied.untouched (implied : s.IsImplied net b side v) (known : Visited s.visited v)
    (known' : Visited s'.visited v) (same : Untouched net b side s s' v) :
    s'.IsImplied net b side v := by
  have own := same.own
  rw [boundIn_of_visited known, boundIn_of_visited known'] at own
  have bounds : s'.impliedBounds net b side v = s.impliedBounds net b side v := by
    ext y
    refine or_congr Iff.rfl (exists_congr fun u => exists_congr fun lag => ?_)
    exact and_congr_right fun arc => by rw [same.before arc]
  unfold IsImplied
  rw [bounds, own]
  exact implied

/-- What is known of the jobs that were looked at when no job waits any more: only bounds have changed,
each of the jobs has the bound that is implied for it, and the others are untouched. -/
structure LookedAt (net : Network) (b : Bounds) (side : Side) (s : DeletionSearch)
    (waiting : List Nat) (s' : DeletionSearch) (looked : List Nat) : Prop where
  same : s' = { s with current := s'.current }
  size : s'.current.size = s.current.size
  waiting : ∀ v ∈ waiting, v ∈ looked
  implied : ∀ v ∈ looked, Visited s.visited v ∧ s'.IsImplied net b side v
  others : ∀ v, Visited s.visited v → v ∉ looked → Untouched net b side s s' v

/-- If no job waits, none is looked at. -/
lemma lookedAt_nil (net : Network) (b : Bounds) (side : Side) (s : DeletionSearch) :
    LookedAt net b side s [] s [] :=
  ⟨rfl, rfl, fun _ impossible => impossible, fun _ impossible => absurd impossible List.not_mem_nil,
    fun _ _ _ => ⟨rfl, fun _ => rfl⟩⟩

variable {rest next looked : List Nat} {bound : Int}

/-- A job is looked at that has the bound that is implied for it. -/
lemma LookedAt.skip (h : LookedAt net b side s rest s' looked) (known : Visited s.visited v)
    (now : s.IsImplied net b side v) : LookedAt net b side s (v :: rest) s' (v :: looked) := by
  have visited : s'.visited = s.visited := by rw [h.same]
  refine ⟨h.same, h.size, fun x member => ?_, fun x member => ?_, fun x isKnown fresh => ?_⟩
  · rcases List.mem_cons.1 member with rfl | member
    · exact List.mem_cons_self
    · exact List.mem_cons_of_mem _ (h.waiting x member)
  · by_cases again : x ∈ looked
    · exact h.implied x again
    · obtain rfl := (List.mem_cons.1 member).resolve_right again
      exact ⟨known, now.untouched known (visited ▸ known) (h.others x known again)⟩
  · exact h.others x isKnown fun member => fresh (List.mem_cons_of_mem _ member)

/-- The bound that is implied for a job is stored, and then the visited jobs behind it are looked at. -/
lemma LookedAt.store (acyclic : Acyclic net.HasArc) (known : Visited s.visited v)
    (hv : v < s.current.size)
    (h : LookedAt net b side { s with current := s.current.set v bound hv } (rest ++ next) s' looked)
    (tightest : side.IsTightest (s.impliedBounds net b side v) bound)
    (behind : ∀ {x lag}, net.Leads side v x lag → Visited s.visited x → x ∈ next) :
    LookedAt net b side s (v :: rest) s' (v :: looked) := by
  have bounds : ∀ x, boundIn { s with current := s.current.set v bound hv } b side x =
      if x = v then bound else s.boundIn b side x := boundIn_set known hv bound
  have visited : s'.visited = s.visited := by rw [h.same]
  refine ⟨h.same, h.size.trans (Array.size_set hv), fun x member => ?_, fun x member => ?_,
    fun x isKnown fresh => ?_⟩
  · rcases List.mem_cons.1 member with rfl | member
    · exact List.mem_cons_self
    · exact List.mem_cons_of_mem _ (h.waiting x (List.mem_append_left _ member))
  · by_cases again : x ∈ looked
    · exact h.implied x again
    · obtain rfl := (List.mem_cons.1 member).resolve_right again
      -- the job itself is not among its neighbours
      have same : impliedBounds { s with current := s.current.set x bound hv } net b side x =
          s.impliedBounds net b side x := by
        ext y
        refine or_congr Iff.rfl (exists_congr fun u => exists_congr fun lag => ?_)
        refine and_congr_right fun arc => ?_
        rw [bounds, if_neg ((acyclic_leads acyclic side).ne arc.leads)]
      have now : IsImplied { s with current := s.current.set x bound hv } net b side x := by
        unfold IsImplied
        rw [same, valueAt_set, if_pos rfl]
        exact tightest
      exact ⟨known, now.untouched known (visited ▸ known) (h.others x known again)⟩
  · obtain ⟨other, unlisted⟩ := not_or.1 (mt List.mem_cons.2 fresh)
    have untouched := h.others x isKnown unlisted
    refine ⟨?_, fun {u lag} arc => ?_⟩
    · rw [untouched.own, bounds, if_neg other]
    · rw [untouched.before arc, bounds, if_neg]
      rintro rfl
      exact unlisted (h.waiting x (List.mem_append_right _ (behind arc.leads isKnown)))

/-- The worklist becomes empty, unless a bound leaves the range of times.  No more jobs are looked at than
the waiting ones can pay for. -/
lemma settleListing_answersIf (ready : Explorable net b side) (shelter : Sheltered safe net b side Fine) :
    ∀ {fuel : Nat} {waiting : List Nat} {s : DeletionSearch}, s.Sized net.numJobs → (safe → Fine s) →
      (∀ v ∈ waiting, Visited s.visited v) → (waiting.map (net.allowance side)).sum ≤ fuel →
        (s.settleListing net b side fuel waiting).AnswersIf safe fun r =>
          LookedAt net b side s waiting r.1 r.2 ∧ (safe → Fine r.1) ∧ r.2.length ≤ fuel := by
  intro fuel
  induction fuel with
  | zero =>
    intro waiting s sized fine _ enough
    cases waiting with
    | nil => exact .ok ⟨lookedAt_nil net b side s, fine, Nat.zero_le _⟩
    | cons v rest =>
      have positive := net.allowance_pos side v
      rw [List.map_cons, List.sum_cons] at enough
      omega
  | succ fuel ih =>
    intro waiting s sized fine known enough
    cases waiting with
    | nil => exact .ok ⟨lookedAt_nil net b side s, fine, Nat.zero_le _⟩
    | cons v rest =>
      have known_v := known v List.mem_cons_self
      have known_rest := fun x member => known x (List.mem_cons_of_mem _ member)
      have hv := sized.lt_of_visited known_v
      have hc : v < s.current.size := lt_of_lt_of_eq hv sized.current.symm
      have positive := net.allowance_pos side v
      rw [List.map_cons, List.sum_cons] at enough
      rw [settleListing_cons]
      refine (sized.recompute_answersIf ready shelter fine hv).bind fun bound tightest => ?_
      rw [fetch_valueAt hc, ok_bind]
      by_cases same : bound = valueAt s.current v
      · rw [if_pos same]
        refine (ih sized fine known_rest (by omega)).bind fun r ⟨looked, fine', few⟩ =>
          .pure ⟨?_, fine', Nat.succ_le_succ few⟩
        rw [same] at tightest
        exact looked.skip known_v tightest
      · rw [if_neg same, store_of_lt _ hc, ok_bind]
        refine (sized.next rfl ready.linked ready.acyclic hv).answersIf.bind ?_
        rintro onward ⟨next, chosen, known_next, behind, paid⟩
        rw [chosen, ok_bind]
        have sized' : Sized net.numJobs { s with current := s.current.set v bound hc } :=
          { sized with current := (Array.size_set hc).trans sized.current }
        refine (ih sized' (fun isSafe => shelter.stores isSafe (fine isSafe) hc known_v tightest)
          (fun x member => ?_) ?_).bind fun r ⟨looked, fine', few⟩ =>
            .pure ⟨looked.store ready.acyclic known_v hc tightest behind, fine', Nat.succ_le_succ few⟩
        · rcases List.mem_append.1 member with member | member
          · exact known_rest x member
          · exact known_next x member
        · rw [List.map_append, List.sum_append]
          omega

end DeletionSearch

end Leveling
