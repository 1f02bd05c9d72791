import Leveling.Proofs.Network.Flags
import Leveling.Proofs.Precedences
import Leveling.Proofs.Verdicts
import Mathlib.Data.List.Nodup

/-!
# Questions about a network

A walk through a linked network finds out whether a path leads from one job to another: it stops
only at the goal, and what it has visited and left behind is closed under arcs.  A linked network
has a topological order if its arcs close no cycle, because each list of counterparts is as long
as there are arcs to its job.  Then nothing is wrong with it.
-/

namespace Leveling

open Checked Relation

namespace Network

variable {net : Network} {u v w : Nat}

/-- The targets of the arcs of a job. -/
def targetList (net : Network) (v : Nat) : List Nat :=
  (net.outgoing.getD v #[]).toList.map Arc.target

/-- The targets of a job are listed. -/
lemma targets_eq (hv : v < net.numJobs) : net.targets v = .ok (net.targetList v) := by
  unfold targets targetList
  rw [fetch_of_lt hv, ok_bind, Array.getD_eq_getD_getElem?, Array.getElem?_eq_getElem hv]
  rfl

/-- The targets of a job are the jobs to which arcs lead from it. -/
lemma mem_targetList (hv : v < net.numJobs) : w ∈ net.targetList v ↔ Joined net.HasArc v w := by
  have listed : net.targetList v = net.outgoing[v].toList.map Arc.target := by
    unfold targetList
    rw [Array.getD_eq_getD_getElem?, Array.getElem?_eq_getElem hv]
    rfl
  rw [listed, List.mem_map]
  constructor
  · rintro ⟨a, member, rfl⟩
    obtain ⟨i, found⟩ := (mem_list_iff hv).1 member
    exact ⟨a.lag, hasArc_iff.2 ⟨a, ⟨i, found, rfl⟩, rfl⟩⟩
  · rintro ⟨lag, arc⟩
    obtain ⟨a, ⟨i, found, target⟩, -⟩ := hasArc_iff.1 arc
    exact ⟨a, (mem_list_iff hv).2 ⟨i, found⟩, target⟩

/-! ## Reachability -/

/-- The job is marked as visited. -/
def Visited (visited : Array Bool) (v : Nat) : Prop := visited[v]? = some true

/-- The jobs that are visited after one more was marked. -/
lemma visited_set {visited : Array Bool} (hv : v < visited.size) :
    Visited (visited.set v true hv) w ↔ w = v ∨ Visited visited w := by
  unfold Visited
  rw [Array.getElem?_set]
  by_cases same : v = w
  · simp [same]
  · simp [same, Ne.symm same]

/-- After all listed jobs were marked, those that are named were not visited before. -/
lemma visitAll_answers {vs : List Nat} :
    ∀ {visited : Array Bool}, (∀ v ∈ vs, v < visited.size) →
      (visitAll visited vs).Answers fun r => r.1.size = visited.size ∧ (∀ v ∈ r.2, v ∈ vs) ∧
        (∀ v ∈ vs, Visited r.1 v) ∧ ∀ v, Visited r.1 v ↔ Visited visited v ∨ v ∈ r.2 := by
  induction vs with
  | nil =>
    intro visited _
    exact .ok ⟨rfl, fun v member => member, fun v member => absurd member List.not_mem_nil,
      fun v => (or_iff_left List.not_mem_nil).symm⟩
  | cons v rest ih =>
    intro visited inside
    have hv := inside v List.mem_cons_self
    have others := fun w member => inside w (List.mem_cons_of_mem _ member)
    unfold visitAll
    rw [fetch_of_lt hv, ok_bind]
    cases known : visited[v] with
    | true =>
      rw [if_pos rfl]
      refine (ih others).imp fun r ⟨size, named, all, visited_iff⟩ => ⟨size, fun w member =>
        List.mem_cons_of_mem _ (named w member), fun w member => ?_, visited_iff⟩
      rcases List.mem_cons.1 member with rfl | member
      · exact (visited_iff w).2 (.inl (by rw [Visited, Array.getElem?_eq_getElem hv, known]))
      · exact all w member
    | false =>
      have size : (visited.set v true hv).size = visited.size := Array.size_set hv
      have others' : ∀ w ∈ rest, w < (visited.set v true hv).size := by rwa [size]
      rw [if_neg Bool.false_ne_true, store_of_lt true hv, ok_bind]
      refine (ih others').bind ?_
      rintro ⟨visited', fresh⟩ ⟨size', named, all, visited_iff⟩
      refine .pure ⟨size'.trans size, fun w member => ?_, fun w member => ?_, fun w => ?_⟩
      · rcases List.mem_cons.1 member with rfl | member
        · exact List.mem_cons_self
        · exact List.mem_cons_of_mem _ (named w member)
      · rcases List.mem_cons.1 member with rfl | member
        · exact (visited_iff w).2 (.inl ((visited_set hv).2 (.inl rfl)))
        · exact all w member
      · rw [visited_iff, visited_set, List.mem_cons]
        tauto

/-- What holds while the walk from `source` looks for its goal. -/
structure Walking (net : Network) (source goal : Nat) (visited : Array Bool)
    (stack : List Nat) : Prop where
  size : visited.size = net.numJobs
  start : Visited visited source
  inside : ∀ v ∈ stack, v < net.numJobs
  reached : ∀ v ∈ stack, ReflTransGen (Joined net.HasArc) source v
  /-- What was visited and left behind is not the goal, and its targets are visited. -/
  closed : ∀ v, Visited visited v → v ∈ stack ∨
    v ≠ goal ∧ ∀ w, Joined net.HasArc v w → Visited visited w

/-- A walk that has left behind all jobs that it visited has not missed the goal. -/
lemma Walking.unreachable {source goal : Nat} {visited : Array Bool}
    (now : Walking net source goal visited []) :
    ¬ReflTransGen (Joined net.HasArc) source goal := by
  have behind : ∀ v, Visited visited v →
      v ≠ goal ∧ ∀ w, Joined net.HasArc v w → Visited visited w := fun v known =>
    (now.closed v known).resolve_left List.not_mem_nil
  have known : ∀ v, ReflTransGen (Joined net.HasArc) source v → Visited visited v := by
    intro v path
    induction path with
    | refl => exact now.start
    | tail _ last ih => exact (behind _ ih).2 _ last
  exact fun path => (behind goal (known goal path)).1 rfl

/-- The walk goes on behind a job that is not the goal. -/
lemma walk_cons {goal : Nat} {visited : Array Bool} {rest : List Nat} (other : v ≠ goal) :
    net.walk goal visited (v :: rest) = (do
      let targets ← net.targets v
      let (visited', fresh) ← visitAll visited targets
      net.walk goal visited' (fresh.reverse ++ rest)) := by
  rw [walk, if_neg other]
  refine bind_congr fun targets => ?_
  cases visitAll visited targets <;> rfl

/-- The walk answers whether a path leads to the goal. -/
lemma Walking.walk (linked : net.Linked) {source goal : Nat} :
    ∀ {visited : Array Bool} {stack : List Nat}, Walking net source goal visited stack →
      (net.walk goal visited stack).Answers fun found =>
        found = true ↔ ReflTransGen (Joined net.HasArc) source goal := by
  intro visited stack
  induction visited, stack using Network.walk.induct goal with
  | case1 visited =>
    intro now
    rw [Network.walk]
    exact .ok (iff_of_false Bool.false_ne_true now.unreachable)
  | case2 visited rest =>
    intro now
    rw [Network.walk, if_pos rfl]
    exact .ok (iff_of_true rfl (now.reached goal List.mem_cons_self))
  | case3 visited v rest other ih =>
    intro now
    have hv : v < net.numJobs := now.inside v List.mem_cons_self
    have path := now.reached v List.mem_cons_self
    have target_lt : ∀ w ∈ net.targetList v, w < net.numJobs := fun w member => by
      obtain ⟨lag, arc⟩ := (mem_targetList hv).1 member
      have leads : net.Leads .early v w lag := arc
      exact (linked.lt_of_leads leads).2
    have listed : ∀ w ∈ net.targetList v, w < visited.size := by
      rw [now.size]
      exact target_lt
    obtain ⟨⟨visited', fresh⟩, answer, size, named, all, visited_iff⟩ := visitAll_answers listed
    rw [walk_cons other, targets_eq hv, ok_bind, answer, ok_bind]
    refine ih _ _ _ answer ⟨size.trans now.size, (visited_iff source).2 (.inl now.start),
      fun w member => ?_, fun w member => ?_, fun w known => ?_⟩
    · rcases List.mem_append.1 member with new | old
      · exact target_lt w (named w (List.mem_reverse.1 new))
      · exact now.inside w (List.mem_cons_of_mem _ old)
    · rcases List.mem_append.1 member with new | old
      · exact path.tail ((mem_targetList hv).1 (named w (List.mem_reverse.1 new)))
      · exact now.reached w (List.mem_cons_of_mem _ old)
    · rcases (visited_iff w).1 known with before | new
      · rcases now.closed w before with onStack | ⟨differs, targets⟩
        · rcases List.mem_cons.1 onStack with rfl | onStack
          · exact .inr ⟨other, fun x joined => all x ((mem_targetList hv).2 joined)⟩
          · exact .inl (List.mem_append_right _ onStack)
        · exact .inr ⟨differs, fun x joined => (visited_iff x).2 (.inl (targets x joined))⟩
      · exact .inl (List.mem_append_left _ (List.mem_reverse.2 new))

/-- Reachability is decided. -/
lemma Linked.reaches (linked : net.Linked) {source : Nat} (hs : source < net.numJobs) (goal : Nat) :
    (net.reaches source goal).Answers fun found =>
      found = true ↔ ReflTransGen (Joined net.HasArc) source goal := by
  have hs' : source < (Array.replicate net.numJobs false).size := by
    rwa [Array.size_replicate]
  have none_visited : ∀ v, ¬Visited (Array.replicate net.numJobs false) v := by
    intro v known
    unfold Visited at known
    rw [Array.getElem?_replicate] at known
    split at known <;> cases known
  unfold Network.reaches
  rw [store_of_lt true hs', ok_bind]
  refine Walking.walk linked ⟨?_, (visited_set hs').2 (.inl rfl), fun v member => ?_,
    fun v member => ?_, fun v known => ?_⟩
  · rw [Array.size_set, Array.size_replicate]
  · rwa [List.mem_singleton.1 member]
  · rw [List.mem_singleton.1 member]
  · rcases (visited_set hs').1 known with rfl | known
    · exact .inl List.mem_cons_self
    · exact absurd known (none_visited v)

/-! ## Consistency -/

/-- The entries of a list of lists with their places. -/
lemma mem_entries {β : Type} {lists : Array (Array β)} {v i : Nat} {x : β} :
    (v, i, x) ∈ entries lists ↔ entryAt lists (v, i) = some x := by
  unfold entries entryAt
  simp only [List.mem_flatMap, List.mem_map, Option.bind_eq_some_iff, Prod.mk.injEq, Prod.exists]
  constructor
  · rintro ⟨list, w, member, y, j, inside, rfl, rfl, rfl⟩
    have found := List.mem_zipIdx_iff_getElem?.1 member
    have found' := List.mem_zipIdx_iff_getElem?.1 inside
    exact ⟨list, by simpa using found, by simpa using found'⟩
  · rintro ⟨list, found, inside⟩
    exact ⟨list, v, List.mem_zipIdx_iff_getElem?.2 (by simpa using found), x, i,
      List.mem_zipIdx_iff_getElem?.2 (by simpa using inside), rfl, rfl, rfl⟩

/-- The place of an entry. -/
def placeOf {β : Type} (entry : Nat × Nat × β) : Place := (entry.1, entry.2.1)

/-- No two entries have the same place. -/
lemma nodup_places {β : Type} (lists : Array (Array β)) : ((entries lists).map placeOf).Nodup := by
  have positions : ∀ {γ : Type} (l : List γ), (l.zipIdx.map Prod.snd).Nodup := by
    intro γ l
    rw [List.zipIdx_map_snd]
    exact List.nodup_range'
  unfold entries
  rw [List.map_flatMap, List.nodup_flatMap]
  constructor
  · rintro ⟨list, v⟩ -
    rw [List.map_map]
    refine List.Nodup.of_map Prod.snd ?_
    rw [List.map_map]
    exact positions list.toList
  · refine (List.pairwise_map.1 (positions lists.toList)).imp fun differs => ?_
    rw [Function.onFun, List.disjoint_left]
    intro q first second
    simp only [List.map_map, List.mem_map] at first second
    obtain ⟨_, -, rfl⟩ := first
    obtain ⟨_, -, same⟩ := second
    exact differs (congrArg Prod.fst same).symm

/-- The entries with a property are counted list by list. -/
lemma countP_entries {β : Type} (c : Nat → β → Bool) (lists : Array (Array β)) :
    (entries lists).countP (fun e => c e.1 e.2.2) = tally c lists := by
  refine countP_flatMap_zipIdx _ c _ (fun list v => ?_) _ 0
  rw [List.countP_map]
  have values := List.countP_map (p := c v) (f := Prod.fst) (l := list.toList.zipIdx)
  rw [List.zipIdx_map_fst] at values
  exact values.symm

end Network

/-- Entries with a property whose partners have another one are no more than those that have the
other one. -/
lemma PairedExcept.tally_le {β γ : Type} {link : β → Network.Place} {link' : γ → Network.Place}
    {A : Array (Array β)} {B : Array (Array γ)} (h : PairedExcept link link' [] [] A B)
    {c : Nat → β → Bool} {d : Nat → γ → Bool}
    (partners : ∀ {p x y}, entryAt A p = some x → entryAt B (link x) = some y → c p.1 x = true →
      d (link x).1 y = true) : tally c A ≤ tally d B := by
  let these := (Network.entries A).filter fun e => c e.1 e.2.2
  let those := (Network.entries B).filter fun e => d e.1 e.2.2
  have entry : ∀ e ∈ these, entryAt A (Network.placeOf e) = some e.2.2 ∧ c e.1 e.2.2 = true := by
    rintro ⟨v, i, x⟩ member
    obtain ⟨member, holds⟩ := List.mem_filter.1 member
    exact ⟨Network.mem_entries.1 member, holds⟩
  have distinct : (these.map fun e => link e.2.2).Nodup := by
    have places : (these.map Network.placeOf).Nodup :=
      (Network.nodup_places A).sublist (List.filter_sublist.map _)
    refine (List.Nodup.of_map Network.placeOf places).map_on fun e he e' he' same => ?_
    obtain ⟨-, y, hy, back⟩ := h.forth (entry e he).1 List.not_mem_nil
    obtain ⟨-, y', hy', back'⟩ := h.forth (entry e' he').1 List.not_mem_nil
    rw [same, hy'] at hy
    obtain rfl := Option.some.inj hy
    exact List.inj_on_of_nodup_map places he he' (back.symm.trans back')
  have listed : ∀ q ∈ these.map fun e => link e.2.2, q ∈ those.map Network.placeOf := by
    intro q member
    obtain ⟨e, he, rfl⟩ := List.mem_map.1 member
    obtain ⟨hx, holds⟩ := entry e he
    obtain ⟨-, y, hy, -⟩ := h.forth hx List.not_mem_nil
    exact List.mem_map.2 ⟨((link e.2.2).1, (link e.2.2).2, y),
      List.mem_filter.2 ⟨Network.mem_entries.2 hy, partners hx hy holds⟩, rfl⟩
  have fewer := (distinct.subperm listed).length_le
  rw [List.length_map, List.length_map, ← List.countP_eq_length_filter,
    ← List.countP_eq_length_filter] at fewer
  rwa [← Network.countP_entries, ← Network.countP_entries]

namespace Network

variable {net : Network} {v w : Nat}

/-- A weight is a sum over the positions. -/
lemma weightFrom_eq_sum {β : Type} (f : Nat → β → Nat) (d : β) :
    ∀ (l : List β) (k : Nat),
      weightFrom f k l = ∑ i ∈ Finset.range l.length, f (k + i) (l.getD i d)
  | [], _ => rfl
  | x :: l, k => by
    rw [weightFrom, weightFrom_eq_sum f d l (k + 1), List.length_cons, Finset.sum_range_succ']
    simp only [List.getD_cons_succ, List.getD_cons_zero, Nat.add_zero, Nat.add_assoc,
      Nat.add_comm 1]
    exact Nat.add_comm _ _

/-- A number of entries is a sum over the lists. -/
lemma tally_eq_sum {β : Type} (c : Nat → β → Bool) (lists : Array (Array β)) :
    tally c lists = ∑ v ∈ Finset.range lists.size, (lists.getD v #[]).toList.countP (c v) := by
  unfold tally weight
  rw [weightFrom_eq_sum _ #[], Array.length_toList]
  refine Finset.sum_congr rfl fun v _ => ?_
  rw [Nat.zero_add, List.getD_eq_getElem?_getD, Array.getD_eq_getD_getElem?, Array.getElem?_toList]

/-- The entries of one list are counted alone. -/
lemma tally_row {β : Type} {lists : Array (Array β)} (hw : w < lists.size) :
    tally (fun v _ => v == w) lists = lengthAt lists w := by
  have row : ∀ v ∈ Finset.range lists.size,
      (lists.getD v #[]).toList.countP (fun _ => v == w) =
        if w = v then lengthAt lists w else 0 := by
    intro v _
    by_cases here : w = v
    · subst here
      simp [lengthAt]
    · simp [here, Ne.symm here]
  rw [tally_eq_sum, Finset.sum_congr rfl row, Finset.sum_ite_eq, if_pos (Finset.mem_range.2 hw)]

/-- The list of counterparts of a job is as long as there are arcs to it. -/
lemma Linked.tally_target (linked : net.Linked) (hw : w < net.numJobs) :
    tally (fun _ a => a.target == w) net.outgoing = lengthAt net.incoming w := by
  have hw' : w < net.incoming.size := lt_of_lt_of_eq hw linked.size.symm
  rw [← tally_row hw']
  refine Nat.le_antisymm (linked.paired.tally_le fun _ _ holds => holds) ?_
  refine linked.paired.symm.tally_le fun {q r a} hq ha here => ?_
  obtain ⟨b, hb, back⟩ := linked.origin hq
  obtain rfl := Option.some.inj (ha.symm.trans hb)
  rw [← back] at here
  exact here

/-- The sizes of the lists of counterparts are the degrees of the jobs. -/
lemma Linked.degreesAre (linked : net.Linked) :
    DegreesAre (net.incoming.map Array.size) net.numJobs
      fun w => ∑ u ∈ Finset.range net.numJobs, (net.targetList u).count w where
  size := by
    rw [Array.size_map, linked.size]
    rfl
  entry w hw := by
    have hw' : w < net.incoming.size := lt_of_lt_of_eq hw linked.size.symm
    have sum : ∑ u ∈ Finset.range net.numJobs, (net.targetList u).count w =
        tally (fun _ a => a.target == w) net.outgoing := by
      rw [tally_eq_sum]
      refine Finset.sum_congr rfl fun u _ => ?_
      rw [targetList, List.count, List.countP_map]
      rfl
    rw [sum, linked.tally_target hw, lengthAt_of_lt hw', Array.getElem?_map,
      Array.getElem?_eq_getElem hw']
    rfl

/-- A linked network has a topological order or none, and it has one if its arcs close no cycle. -/
lemma Linked.order (linked : net.Linked) :
    net.order?.Answers fun found =>
      (∀ order, found = some order → IsOrder net.targetList net.numJobs order) ∧
        (Acyclic net.HasArc → ∃ order, found = some order) := by
  refine topologicalOrder?_answers (fun v hv => targets_eq hv) (fun v hv w member => ?_)
    linked.degreesAre (fun u hu w => mem_targetList hu) fun {u w lag} arc => ?_
  · obtain ⟨lag, arc⟩ := (mem_targetList hv).1 member
    have leads : net.Leads .early v w lag := arc
    exact (linked.lt_of_leads leads).2
  · have leads : net.Leads .early u w lag := arc
    exact (linked.lt_of_leads leads).1

/-- Nothing but a cycle can be wrong with a linked network: its check comes down to the search for an
order. -/
lemma Linked.check_eq (linked : net.Linked) :
    net.check = (do
      if (← (net.order? : Checked (Option (List Nat)))).isNone then throw .cycle) := by
  unfold Network.check
  refine (Verdict.forM_bind ?_ _).trans ((Verdict.forM_bind ?_ _).trans ?_)
  · rintro ⟨source, slot, a⟩ member
    have mirror := linked.mirror (mem_entries.1 member)
    have hv : a.target < net.incoming.size := (lt_of_entryAt mirror).1
    have back : net.incoming[a.target][a.backSlot]? = some ⟨source, slot⟩ :=
      (entryAt_of_lt hv a.backSlot).symm.trans mirror
    refine Verdict.accepts_bind.2 ⟨_, Verdict.accepts_lift.2 (fetch_of_lt hv), ?_⟩
    rw [if_pos back]
    exact Verdict.accepts_pure.2 rfl
  · rintro ⟨target, slot, r⟩ member
    obtain ⟨a, ha, back⟩ := linked.origin (mem_entries.1 member)
    have hv : r.source < net.outgoing.size := (lt_of_entryAt ha).1
    have forth : net.outgoing[r.source][r.slot]? = some a :=
      (entryAt_of_lt hv r.slot).symm.trans ha
    refine Verdict.accepts_bind.2 ⟨_, Verdict.accepts_lift.2 (fetch_of_lt hv), ?_⟩
    rw [forth]
    dsimp only
    rw [if_pos ⟨congrArg Prod.fst back, congrArg Prod.snd back⟩]
    exact Verdict.accepts_pure.2 rfl
  · have count : (entries net.outgoing).length = net.arcCount := by
      rw [length_entries, linked.arcs]
    rw [if_pos count]

/-- Nothing is wrong with a linked network whose arcs close no cycle. -/
lemma Linked.check (linked : net.Linked) (acyclic : Acyclic net.HasArc) : net.check.Accepts () := by
  obtain ⟨found, answer, -, exists_order⟩ := linked.order
  obtain ⟨order, rfl⟩ := exists_order acyclic
  rw [linked.check_eq]
  exact Verdict.accepts_bind.2 ⟨_, Verdict.accepts_lift.2 answer, Verdict.accepts_pure.2 rfl⟩

end Network

end Leveling
