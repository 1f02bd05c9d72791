import Leveling.Proofs.Exact
import Leveling.Proofs.Search.Scorers

/-!
# What arcs have earned

The reinforcement matrix stores no history.  It has a ring of recent qualities in which a new one overwrites the
oldest one, and two tables that are active in turn, so that one is written in the even and one in the odd
periods, in which an entry that was written in an earlier period is begun anew when it is written the next time.  Nevertheless it gives the rewards and the
scores that a *log* of all rounds would give: a round is compared to the last rounds before it, and the
score of an arc is the sum of what it has earned in this period and in the one before it, or ever if nothing is
forgotten.

A table has entries of many periods at once.  What holds of each of them is said period by period: from the
period of an entry on, the arc has earned what the entry says in this period and nothing later (`Tallies`).
-/

namespace Leveling

open Checked

variable {α : Type}

/-! ## The log -/

/-- A round that has ended in the given period. -/
structure Round (α : Type) where
  quality : α
  net : Network
  period : Nat

/-- The rounds that have ended, the latest first, and the present period. -/
structure RoundLog (α : Type) where
  rounds : List (Round α)
  period : Nat

/-- What a reinforcement matrix is told. -/
inductive RoundEvent (α : Type) where
  /-- A round has ended with the given quality and the given network. -/
  | finish (quality : α) (net : Network)
  /-- An iteration begins. -/
  | iteration (number : Nat)

namespace Network

/-- All arcs join two of the first `n` jobs. -/
def Within (net : Network) (n : Nat) : Prop := ∀ e ∈ net.edges, e.source < n ∧ e.target < n

/-- The number of arcs from one job to another one that do not belong to the instance. -/
def inserted (net : Network) (s t : Nat) : Nat :=
  net.edges.countP fun e => e.source = s ∧ e.target = t ∧ e.permanent = false

/-- The arcs of a linked network join its jobs. -/
lemma Linked.within {net : Network} (linked : net.Linked) : net.Within net.numJobs := by
  intro e member
  obtain ⟨p, a, entry, rfl⟩ := mem_edges.1 member
  exact linked.lt_of_arc entry

end Network

/-- The network of a round that has ended joins the first `n` jobs only. -/
def RoundEvent.Within (n : Nat) : RoundEvent α → Prop
  | .finish _ net => net.Within n
  | .iteration _ => True

namespace RoundLog

/-- The log in which there is no round yet. -/
def empty : RoundLog α := ⟨[], 0⟩

/-- The log with an event added.  A period ends with each iteration whose number is a multiple of its
length. -/
def add (config : MatrixConfig α) (log : RoundLog α) : RoundEvent α → RoundLog α
  | .finish quality net => { log with rounds := ⟨quality, net, log.period⟩ :: log.rounds }
  | .iteration number =>
    if config.aging ≠ 0 ∧ config.aging ∣ number then { log with period := log.period + 1 } else log

variable [ExactScalar α]

/-- The reward of a round of the given quality after earlier ones, the latest first: the less, the more of the
last ones were at least as good. -/
def reward (config : MatrixConfig α) (earlier : List (Round α)) (quality : α) : α :=
  max 0 (1 - (earlier.take config.window).countP (fun r => r.quality ≤ quality) /
    (config.window * config.fraction))

/-- What the arc from `s` to `t` has earned in those of the rounds, the latest first, that count. -/
def earned (config : MatrixConfig α) (counts : Round α → Prop) [DecidablePred counts] (s t : Nat) :
    List (Round α) → α
  | [] => 0
  | r :: earlier =>
    (if counts r then reward config earlier r.quality * r.net.inserted s t else 0) +
      earned config counts s t earlier

/-- The score of the arc from `s` to `t`.  All rounds count if nothing is forgotten, and otherwise those of the
present period and of the one before it. -/
def score (config : MatrixConfig α) (log : RoundLog α) (s t : Nat) : α :=
  earned config (fun r => config.aging = 0 ∨ log.period ≤ r.period + 1) s t log.rounds

end RoundLog

/-- The ring has room for a round, and some of the rounds have to be beaten. -/
structure MatrixConfig.Valid [ExactScalar α] (config : MatrixConfig α) : Prop where
  window : 0 < config.window
  fraction : 0 < config.fraction

/-- The entry with the same gain added a number of times in the given period. -/
def Reward.more [ExactScalar α] (r : Reward α) (period : Nat) (gain : α) (count : Nat) : Reward α :=
  if count = 0 then r else ⟨period, (if r.period = period then r.value else 0) + count * gain⟩

/-- Gains that are added one after the other are counted. -/
lemma Reward.more_more [ExactScalar α] (r : Reward α) (period : Nat) (gain : α) (count count' : Nat) :
    (r.more period gain count).more period gain count' = r.more period gain (count + count') := by
  unfold Reward.more
  by_cases none_first : count = 0
  · rw [if_pos none_first, none_first, Nat.zero_add]
  · by_cases none_then : count' = 0
    · rw [if_neg none_first, if_pos none_then, none_then, Nat.add_zero, if_neg none_first]
    · have some_both : count + count' ≠ 0 := by omega
      rw [if_neg none_first, if_neg none_then, if_neg some_both, if_pos rfl, Nat.cast_add, add_mul,
        add_assoc]

/-- The arcs that do not belong to the instance are counted in the list of the arcs. -/
lemma Network.inserted_eq (net : Network) (s t : Nat) : net.inserted s t =
    (net.arcs.filter fun (_, arc) => !arc.permanent).countP
      fun arc : Nat × Arc => arc.1 = s ∧ arc.2.target = t := by
  unfold Network.inserted Network.edges
  rw [Multiset.coe_countP, List.countP_map, List.countP_filter]
  refine List.countP_congr fun (v, arc) _ => ?_
  simp only [Arc.edge, Function.comp_apply, decide_eq_true_eq, Bool.and_eq_true, Bool.not_eq_true',
    and_assoc]

/-! ## The ring -/

namespace MatrixScorer

/-- The ring has the last qualities, of which the oldest one stands where the next one is written. -/
structure Recalls (m : MatrixScorer α) (qualities : List α) : Prop where
  position_lt : m.position < m.capacity
  growing : m.window.size < m.capacity → m.position = m.window.size
  order : m.window.toList.drop m.position ++ m.window.toList.take m.position =
    (qualities.take m.capacity).reverse

variable {m m' : MatrixScorer α} {qualities : List α} {quality : α}

/-- The ring has as many qualities as there are, up to its capacity. -/
lemma Recalls.size (h : m.Recalls qualities) : m.window.size = min m.capacity qualities.length := by
  have lengths := congrArg List.length h.order
  simp only [List.length_append, List.length_drop, List.length_take, List.length_reverse,
    Array.length_toList] at lengths
  omega

/-- The ring has the last qualities in some order. -/
lemma Recalls.perm (h : m.Recalls qualities) : m.window.toList.Perm (qualities.take m.capacity) := by
  have turned : (m.window.toList.drop m.position ++ m.window.toList.take m.position).Perm
      m.window.toList := by
    refine List.perm_append_comm.trans ?_
    rw [List.take_append_drop]
  rw [h.order] at turned
  exact turned.symm.trans (List.reverse_perm _)

/-- The tables play no part for the ring. -/
lemma Recalls.congr (h : m.Recalls qualities) (window : m'.window = m.window)
    (position : m'.position = m.position) (capacity : m'.capacity = m.capacity) : m'.Recalls qualities := by
  constructor
  · rw [position, capacity]
    exact h.position_lt
  · rw [window, position, capacity]
    exact h.growing
  · rw [window, position, capacity]
    exact h.order

/-- A quality is put into a ring that has room. -/
lemma Recalls.push (h : m.Recalls qualities) (room : m.window.size < m.capacity) :
    Recalls { m with window := m.window.push quality, position := (m.position + 1) % m.capacity }
      (quality :: qualities) := by
  have size := h.size
  have few : qualities.length < m.capacity := by omega
  have listed : m.window.toList = qualities.reverse := by
    have order := h.order
    rw [h.growing room, List.take_of_length_le few.le] at order
    rwa [← Array.length_toList, List.drop_length, List.nil_append, List.take_length] at order
  have listed' : (m.window.push quality).toList = ((quality :: qualities).take m.capacity).reverse := by
    rw [Array.toList_push, listed, List.take_of_length_le (by rw [List.length_cons]; omega),
      List.reverse_cons]
  have position := h.growing room
  have size' : (m.window.push quality).size = m.window.size + 1 := Array.size_push _
  refine ⟨Nat.mod_lt _ (Nat.zero_lt_of_lt room), fun room' => ?_, ?_⟩
  · dsimp only at room' ⊢
    rw [size'] at room' ⊢
    rw [position, Nat.mod_eq_of_lt room']
  · dsimp only
    rw [← listed', position]
    have room' : m.window.size + 1 ≤ m.capacity := room
    rcases room'.lt_or_eq with more | full
    · have all : m.window.size + 1 = (m.window.push quality).toList.length := by
        rw [Array.length_toList, size']
      rw [Nat.mod_eq_of_lt more, all, List.drop_length, List.take_length, List.nil_append]
    · rw [full, Nat.mod_self, List.drop_zero, List.take_zero, List.append_nil]

/-- The oldest quality of a full ring is overwritten. -/
lemma Recalls.set (h : m.Recalls qualities) (full : m.window.size = m.capacity)
    (inside : m.position < m.window.size) :
    Recalls { m with window := m.window.set m.position quality inside,
                     position := (m.position + 1) % m.capacity } (quality :: qualities) := by
  have enough : m.capacity ≤ qualities.length := by
    have size := h.size
    omega
  -- The last qualities in order are the oldest one, which is overwritten, and the others.
  have others : (m.window.toList.drop (m.position + 1)) ++ m.window.toList.take m.position =
      (qualities.take (m.capacity - 1)).reverse := by
    have order := congrArg List.tail h.order
    rw [List.drop_eq_getElem_cons (Array.length_toList ▸ inside), List.cons_append, List.tail_cons,
      List.tail_reverse] at order
    rw [order, List.dropLast_eq_take, List.length_take, min_eq_left enough, List.take_take,
      min_eq_left (Nat.sub_le _ _)]
  have last : ((quality :: qualities).take m.capacity).reverse =
      (qualities.take (m.capacity - 1)).reverse ++ [quality] := by
    obtain ⟨k, capacity⟩ : ∃ k, m.capacity = k + 1 := Nat.exists_eq_succ_of_ne_zero (by omega)
    rw [capacity, List.take_succ_cons, List.reverse_cons, Nat.add_sub_cancel]
  have listed : (m.window.set m.position quality inside).toList =
      m.window.toList.take m.position ++ quality :: m.window.toList.drop (m.position + 1) := by
    rw [Array.toList_set, List.set_eq_take_append_cons_drop, if_pos (Array.length_toList ▸ inside)]
  have length : (m.window.toList.take m.position).length = m.position := by
    rw [List.length_take, Array.length_toList]
    exact min_eq_left inside.le
  refine ⟨Nat.mod_lt _ (by omega), fun room => ?_, ?_⟩
  · dsimp only at room
    rw [Array.size_set, full] at room
    exact absurd room (lt_irrefl _)
  · dsimp only
    rw [last, ← others, listed]
    have inside' : m.position + 1 ≤ m.capacity := full ▸ inside
    rcases inside'.lt_or_eq with more | wraps
    · have drop : (m.window.toList.take m.position ++ quality :: m.window.toList.drop (m.position + 1)).drop
          (m.position + 1) = m.window.toList.drop (m.position + 1) := by
        rw [List.append_cons, List.drop_left' (by rw [List.length_append, length]; rfl)]
      have take : (m.window.toList.take m.position ++ quality :: m.window.toList.drop (m.position + 1)).take
          (m.position + 1) = m.window.toList.take m.position ++ [quality] := by
        rw [List.append_cons, List.take_left' (by rw [List.length_append, length]; rfl)]
      rw [Nat.mod_eq_of_lt more, drop, take, List.append_assoc]
    · have none_newer : m.window.toList.drop (m.position + 1) = [] := by
        rw [wraps, ← full, ← Array.length_toList, List.drop_length]
      rw [wraps, Nat.mod_self, ← wraps, none_newer, List.drop_zero, List.take_zero, List.append_nil,
        List.nil_append]

/-- The quality of a round is put into the ring. -/
lemma Recalls.remember (h : m.Recalls qualities) (quality : α) :
    (m.remember quality).Answers fun m' => m'.Recalls (quality :: qualities) ∧
      ∃ window position, m' = { m with window, position } := by
  unfold MatrixScorer.remember
  by_cases room : m.window.size < m.capacity
  · rw [if_pos room]
    exact .pure ⟨h.push room, _, _, rfl⟩
  · have full : m.window.size = m.capacity := by
      have size := h.size
      omega
    have inside : m.position < m.window.size := full ▸ h.position_lt
    rw [if_neg room, store_of_lt _ inside, ok_bind]
    exact .pure ⟨h.set full inside, _, _, rfl⟩

/-! ## Rewards -/

section

variable [ExactScalar α] {config : MatrixConfig α} {log : RoundLog α} {n s t b : Nat}

/-- The ring gives the reward that the log gives. -/
lemma Recalls.reward (h : m.Recalls (log.rounds.map Round.quality)) (capacity : m.capacity = config.window)
    (fraction : m.fraction = config.fraction) (some_rounds : 0 < config.window)
    (positive : 0 < config.fraction) (quality : α) :
    m.reward quality = RoundLog.reward config log.rounds quality := by
  have count : m.window.toList.countP (fun q => q ≤ quality) =
      (log.rounds.take config.window).countP (fun r => r.quality ≤ quality) := by
    rw [h.perm.countP_eq, capacity, ← List.map_take, List.countP_map]
    rfl
  have needed : 0 < (config.window : α) * config.fraction := mul_pos (Nat.cast_pos.2 some_rounds) positive
  unfold MatrixScorer.reward RoundLog.reward
  rw [count, capacity, fraction]
  dsimp only [Scalar.ofNat]
  split
  · rename_i fewer
    have part : _ < (1 : α) := (div_lt_one needed).2 fewer
    exact (max_eq_right (sub_nonneg.2 part.le)).symm
  · rename_i enough
    have whole : (1 : α) ≤ _ := (one_le_div needed).2 (not_lt.1 enough)
    exact (max_eq_left (sub_nonpos.2 whole)).symm

/-! ## Tables -/

omit [ExactScalar α] in
/-- The cell of a pair of jobs, if its number is a counter. -/
lemma cellOf_answersIf (hs : s < n) (ht : t < n) :
    (cellOf n s t).AnswersIf (n ≤ 4294967296) (· = s * n + t) := by
  refine AnswersIf.of_eq_or ?_ (fun few => (cellOf_eq few hs ht).1) rfl
  unfold cellOf
  rcases asCount_eq_or (s * n) with offset | overflow
  · rw [offset, ok_bind]
    exact asCount_eq_or _
  · exact .inr (by rw [overflow, error_bind])

omit [ExactScalar α] in
/-- Different pairs of jobs have different cells. -/
lemma cell_unique {s' t' : Nat} (ht : t < n) (ht' : t' < n) :
    s * n + t = s' * n + t' ↔ s = s' ∧ t = t' := by
  constructor
  · intro same
    have column : t = t' := by
      have rest := congrArg (· % n) same
      simpa only [Nat.mul_add_mod', Nat.mod_eq_of_lt ht, Nat.mod_eq_of_lt ht'] using rest
    subst column
    exact ⟨Nat.eq_of_mul_eq_mul_right (Nat.zero_lt_of_lt ht) (Nat.add_right_cancel same), rfl⟩
  · rintro ⟨rfl, rfl⟩
    rfl

/-- A reward is added to the entry of a pair of jobs, and no other entry changes. -/
lemma addReward_answersIf {table : Array (Reward α)} (size : table.size = n * n) (period : Nat) (gain : α)
    {v w : Nat} (hv : v < n) (hw : w < n) :
    (addReward n period gain table v w).AnswersIf (n ≤ 4294967296) fun table' =>
      table'.size = n * n ∧ ∀ s < n, ∀ t < n, table'[s * n + t]? =
        table[s * n + t]?.map (·.more period gain (if v = s ∧ w = t then 1 else 0)) := by
  unfold addReward
  refine (cellOf_answersIf hv hw).bind fun cell same => ?_
  subst same
  have inside : v * n + w < table.size := size ▸ cell_lt hv hw
  unfold adjust
  rw [fetch_of_lt inside, ok_bind]
  dsimp only
  rw [ok_bind, store_of_lt _ inside]
  refine .ok ⟨(Array.size_set _).trans size, fun s hs t ht => ?_⟩
  by_cases here : v = s ∧ w = t
  · obtain ⟨rfl, rfl⟩ := here
    have once : (if v = v ∧ w = w then 1 else 0) = 1 := if_pos ⟨rfl, rfl⟩
    rw [once, Array.getElem?_set_self, Array.getElem?_eq_getElem inside, Option.map_some]
    unfold Reward.more
    rw [if_neg Nat.one_ne_zero, Nat.cast_one, one_mul]
  · have elsewhere : v * n + w ≠ s * n + t := mt (cell_unique hw ht).1 here
    rw [if_neg here, Array.getElem?_set_ne _ elsewhere]
    exact Option.map_id'.symm

/-- Rewards are added for several arcs. -/
lemma addRewards_answersIf (period : Nat) (gain : α) {arcs : List (Nat × Arc)} :
    ∀ {table : Array (Reward α)}, table.size = n * n →
      (∀ arc ∈ arcs, arc.1 < n ∧ arc.2.target < n) →
      (arcs.foldlM (fun (table : Array (Reward α)) ((v, arc) : Nat × Arc) =>
        addReward n period gain table v arc.target) table).AnswersIf (n ≤ 4294967296) fun table' =>
        table'.size = n * n ∧ ∀ s < n, ∀ t < n, table'[s * n + t]? = table[s * n + t]?.map
          fun r : Reward α =>
            r.more period gain (arcs.countP fun arc : Nat × Arc => arc.1 = s ∧ arc.2.target = t) := by
  induction arcs with
  | nil =>
    intro table size _
    exact .pure ⟨size, fun s _ t _ => Option.map_id'.symm⟩
  | cons arc rest ih =>
    intro table size within
    obtain ⟨hv, hw⟩ := within arc List.mem_cons_self
    rw [List.foldlM_cons]
    refine (addReward_answersIf size period gain hv hw).bind fun table₁ ⟨size₁, first⟩ => ?_
    refine (ih size₁ fun arc member => within arc (List.mem_cons_of_mem _ member)).imp
      fun table' ⟨size', others⟩ => ⟨size', fun s hs t ht => ?_⟩
    rw [others s hs t ht, first s hs t ht, Option.map_map, List.countP_cons]
    refine congrArg (fun f => Option.map f table[s * n + t]?) (funext fun r => ?_)
    rw [Function.comp_apply, Reward.more_more, Nat.add_comm]
    simp only [decide_eq_true_eq]

/-- From the period of an entry on, the arc from `s` to `t` has earned what the entry says in this period and
nothing later, as far as periods of the parity `b` are concerned. -/
structure Tallies (config : MatrixConfig α) (log : RoundLog α) (b s t : Nat) (e : Reward α) : Prop where
  period_le : e.period ≤ log.period
  parity : e.period % 2 = b ∨ e = ⟨0, 0⟩
  earned : ∀ k, k % 2 = b → e.period ≤ k →
    RoundLog.earned config (fun r => r.period = k) s t log.rounds = if e.period = k then e.value else 0

variable {e : Reward α} {net : Network}

/-- Before the first round nothing was earned. -/
lemma tallies_empty (config : MatrixConfig α) (b s t : Nat) : Tallies config .empty b s t ⟨0, 0⟩ where
  period_le := le_rfl
  parity := .inr rfl
  earned _ _ _ := (ite_self (0 : α)).symm

/-- An entry stays right in a round in which nothing is earned that it would have to say. -/
lemma Tallies.keep (h : Tallies config log b s t e) (net : Network) (quality : α)
    (nothing : log.period % 2 = b → RoundLog.reward config log.rounds quality * net.inserted s t = 0) :
    Tallies config (log.add config (.finish quality net)) b s t e where
  period_le := h.period_le
  parity := h.parity
  earned k parity le := by
    have same : (if log.period = k then RoundLog.reward config log.rounds quality * net.inserted s t
        else 0) = 0 := by
      split
      · rename_i here
        exact nothing (here ▸ parity)
      · rfl
    rw [← h.earned k parity le]
    exact (congrArg (· + _) same).trans (zero_add _)

/-- An entry is right again when what was earned in a round is added. -/
lemma Tallies.more (h : Tallies config log b s t e) (net : Network) (quality : α)
    (active : log.period % 2 = b) : Tallies config (log.add config (.finish quality net)) b s t
      (e.more log.period (RoundLog.reward config log.rounds quality) (net.inserted s t)) := by
  unfold Reward.more
  by_cases none_inserted : net.inserted s t = 0
  · rw [if_pos none_inserted]
    refine h.keep net quality fun _ => ?_
    rw [none_inserted, Nat.cast_zero, mul_zero]
  · rw [if_neg none_inserted]
    refine ⟨le_rfl, .inl active, fun k parity le => ?_⟩
    have before := h.earned k parity (h.period_le.trans le)
    change (if log.period = k then RoundLog.reward config log.rounds quality * net.inserted s t else 0) +
      RoundLog.earned config (fun r => r.period = k) s t log.rounds = _
    rw [before]
    dsimp only
    by_cases now : log.period = k
    · rw [if_pos now, if_pos now, now, add_comm, mul_comm]
    · have past : e.period ≠ k := fun same => now (le_antisymm le (same ▸ h.period_le))
      rw [if_neg now, if_neg now, if_neg past, add_zero]

/-- A new period changes no entry. -/
lemma Tallies.iteration (h : Tallies config log b s t e) (number : Nat) :
    Tallies config (log.add config (.iteration number)) b s t e := by
  unfold RoundLog.add
  dsimp only
  split
  · exact ⟨h.period_le.trans (Nat.le_succ _), h.parity, h.earned⟩
  · exact h

/-- The entries of a table are right. -/
structure Tabulates (config : MatrixConfig α) (log : RoundLog α) (n b : Nat) (table : Array (Reward α)) :
    Prop where
  size : table.size = n * n
  entry : ∀ s < n, ∀ t < n, ∃ e, table[s * n + t]? = some e ∧ Tallies config log b s t e

/-- The table in which nothing was earned yet. -/
lemma tabulates_empty (config : MatrixConfig α) (n b : Nat) :
    Tabulates config .empty n b (.replicate (n * n) ⟨0, 0⟩) where
  size := Array.size_replicate
  entry s hs t ht := by
    refine ⟨⟨0, 0⟩, ?_, tallies_empty config b s t⟩
    rw [Array.getElem?_replicate, if_pos (cell_lt hs ht)]

/-- The rewards of a round are added to the table for its period. -/
lemma Tabulates.more {table : Array (Reward α)} (h : Tabulates config log n b table)
    (within : net.Within n) (quality : α) (active : log.period % 2 = b) :
    ((net.arcs.filter fun ((_, arc) : Nat × Arc) => !arc.permanent).foldlM
      (fun (table : Array (Reward α)) ((v, arc) : Nat × Arc) =>
        addReward n log.period (RoundLog.reward config log.rounds quality) table v arc.target)
      table).AnswersIf (n ≤ 4294967296)
        (Tabulates config (log.add config (.finish quality net)) n b) := by
  refine (addRewards_answersIf _ _ h.size ?_).imp fun table' ⟨size, entries⟩ =>
    ⟨size, fun s hs t ht => ?_⟩
  · rintro ⟨v, arc⟩ member
    have listed : arc.edge v ∈ net.edges :=
      List.mem_map_of_mem (f := fun ((v, a) : Nat × Arc) => a.edge v) (List.mem_filter.1 member).1
    exact within _ listed
  · obtain ⟨e, found, tallies⟩ := h.entry s hs t ht
    refine ⟨_, ?_, tallies.more net quality active⟩
    rw [entries s hs t ht, found, Option.map_some, Network.inserted_eq]

/-- A table stays right in a round that earns nothing or belongs to the other table. -/
lemma Tabulates.keep {table : Array (Reward α)} (h : Tabulates config log n b table) (net : Network)
    {quality : α} (nothing : log.period % 2 = b → RoundLog.reward config log.rounds quality = 0) :
    Tabulates config (log.add config (.finish quality net)) n b table where
  size := h.size
  entry s hs t ht := by
    obtain ⟨e, found, tallies⟩ := h.entry s hs t ht
    refine ⟨e, found, tallies.keep net quality fun active => ?_⟩
    rw [nothing active, zero_mul]

/-- A new period changes no table. -/
lemma Tabulates.iteration {table : Array (Reward α)} (h : Tabulates config log n b table) (number : Nat) :
    Tabulates config (log.add config (.iteration number)) n b table where
  size := h.size
  entry s hs t ht := by
    obtain ⟨e, found, tallies⟩ := h.entry s hs t ht
    exact ⟨e, found, tallies.iteration number⟩

/-! ## The matrix and the log -/

/-- The matrix is what the events of the log make of it. -/
structure Records (config : MatrixConfig α) (log : RoundLog α) (n : Nat) (m : MatrixScorer α) : Prop where
  numJobs : m.numJobs = n
  capacity : m.capacity = config.window
  fraction : m.fraction = config.fraction
  aging : m.aging = config.aging
  period : m.period = log.period
  active : m.secondActive = decide (log.period % 2 = 1)
  ring : m.Recalls (log.rounds.map Round.quality)
  even : Tabulates config log n 0 m.first
  odd : Tabulates config log n 1 m.second
  past : ∀ r ∈ log.rounds, r.period ≤ log.period
  lasting : config.aging = 0 → log.period = 0

/-- The empty matrix belongs to the empty log. -/
lemma records_empty (valid : config.Valid) (n : Nat) : Records config .empty n (empty n config) where
  numJobs := rfl
  capacity := max_eq_left valid.window
  fraction := rfl
  aging := rfl
  period := rfl
  active := rfl
  ring := ⟨Nat.le_max_right _ _, fun _ => rfl, (congrArg List.reverse List.take_nil).symm⟩
  even := tabulates_empty config n 0
  odd := tabulates_empty config n 1
  past _ member := absurd member List.not_mem_nil
  lasting _ := rfl

/-- The matrix gives the reward that the log gives. -/
lemma Records.reward (h : Records config log n m) (valid : config.Valid) (quality : α) :
    m.reward quality = RoundLog.reward config log.rounds quality :=
  h.ring.reward h.capacity h.fraction valid.window valid.fraction quality

/-- The matrix learns from a round. -/
lemma Records.learn (h : Records config log n m) (valid : config.Valid) (within : net.Within n)
    (quality : α) : (m.learn quality net).AnswersIf (n ≤ 4294967296)
      (Records config (log.add config (.finish quality net)) n) := by
  have past : ∀ r ∈ (log.add config (.finish quality net)).rounds, r.period ≤ log.period := by
    intro r member
    rcases List.mem_cons.1 member with rfl | member
    · exact le_rfl
    · exact h.past r member
  have earns : 0 ≤ RoundLog.reward config log.rounds quality := le_max_left _ _
  unfold MatrixScorer.learn
  refine (h.ring.remember quality).answersIf.bind ?_
  rintro _ ⟨ring, window, position, rfl⟩
  dsimp only
  rw [h.reward valid, h.numJobs, h.period]
  split
  · rename_i nothing
    have none_earned : RoundLog.reward config log.rounds quality = 0 := le_antisymm nothing earns
    exact .pure ⟨rfl, h.capacity, h.fraction, h.aging, rfl, h.active, ring.congr rfl rfl rfl,
      h.even.keep net fun _ => none_earned, h.odd.keep net fun _ => none_earned, past, h.lasting⟩
  · rw [h.active]
    by_cases odd : log.period % 2 = 1
    · rw [if_pos (decide_eq_true odd)]
      refine (h.odd.more within quality odd).bind fun table written => .pure ?_
      exact ⟨rfl, h.capacity, h.fraction, h.aging, rfl, rfl, ring.congr rfl rfl rfl,
        h.even.keep net fun other => absurd (odd.symm.trans other) Nat.one_ne_zero, written, past,
        h.lasting⟩
    · have even : log.period % 2 = 0 := Nat.mod_two_ne_one.1 odd
      rw [if_neg (by simpa using odd)]
      refine (h.even.more within quality even).bind fun table written => .pure ?_
      exact ⟨rfl, h.capacity, h.fraction, h.aging, rfl, rfl, ring.congr rfl rfl rfl, written,
        h.odd.keep net fun other => absurd other odd, past, h.lasting⟩

/-- The matrix takes notice of the beginning of an iteration. -/
lemma Records.onIteration (h : Records config log n m) (number : Nat) :
    Records config (log.add config (.iteration number)) n (m.onIteration number) := by
  have even := h.even.iteration number
  have odd := h.odd.iteration number
  unfold RoundLog.add at even odd ⊢
  unfold MatrixScorer.onIteration
  dsimp only at even odd ⊢
  rw [h.aging]
  by_cases ends : config.aging ≠ 0 ∧ config.aging ∣ number
  · have ends' : 0 < config.aging ∧ number % config.aging = 0 :=
      ⟨Nat.pos_of_ne_zero ends.1, Nat.mod_eq_zero_of_dvd ends.2⟩
    rw [if_pos ends] at even odd ⊢
    rw [if_pos ends']
    have turned : (!m.secondActive) = decide ((log.period + 1) % 2 = 1) := by
      rw [h.active, ← decide_not]
      exact decide_eq_decide.2 (by omega)
    exact ⟨h.numJobs, h.capacity, h.fraction, rfl, congrArg Nat.succ h.period, turned,
      h.ring.congr rfl rfl rfl, even, odd, fun r member => (h.past r member).trans (Nat.le_succ _), fun zero => absurd zero ends.1⟩
  · have goes_on : ¬(0 < config.aging ∧ number % config.aging = 0) := fun both =>
      ends ⟨both.1.ne', Nat.dvd_of_mod_eq_zero both.2⟩
    rw [if_neg ends] at even odd ⊢
    rw [if_neg goes_on]
    exact h

/-- The matrix after an event. -/
def react (m : MatrixScorer α) : RoundEvent α → Checked (MatrixScorer α)
  | .finish quality net => m.learn quality net
  | .iteration number => .ok (m.onIteration number)

/-- **Step.**  After an event the matrix belongs to the log with this event. -/
lemma Records.react (h : Records config log n m) (valid : config.Valid) {event : RoundEvent α}
    (within : event.Within n) :
    (m.react event).AnswersIf (n ≤ 4294967296) (Records config (log.add config event) n) := by
  cases event with
  | finish quality net => exact h.learn valid within quality
  | iteration number => exact .ok (h.onIteration number)

/-- **Run.**  After any events the matrix belongs to the log of these events. -/
lemma Records.reacts (valid : config.Valid) {events : List (RoundEvent α)} :
    ∀ {log : RoundLog α} {m : MatrixScorer α}, Records config log n m →
      (∀ event ∈ events, event.Within n) → (events.foldlM MatrixScorer.react m).AnswersIf (n ≤ 4294967296)
        (Records config (events.foldl (RoundLog.add config) log) n) := by
  induction events with
  | nil => exact fun h _ => .pure h
  | cons event rest ih =>
    intro log m h within
    rw [List.foldlM_cons, List.foldl_cons]
    refine (h.react valid (within event List.mem_cons_self)).bind fun m' h' => ?_
    exact ih h' fun event member => within event (List.mem_cons_of_mem _ member)

/-! ## Scores -/

/-- Rounds that count in two ways but not in both are added up one way after the other. -/
lemma earned_or {counts counts' both : Round α → Prop} [DecidablePred counts] [DecidablePred counts']
    [DecidablePred both] {rounds : List (Round α)}
    (either : ∀ r ∈ rounds, both r ↔ counts r ∨ counts' r) (apart : ∀ r, ¬(counts r ∧ counts' r)) :
    RoundLog.earned config both s t rounds =
      RoundLog.earned config counts s t rounds + RoundLog.earned config counts' s t rounds := by
  induction rounds with
  | nil => exact (add_zero 0).symm
  | cons r rest ih =>
    have others := ih fun r member => either r (List.mem_cons_of_mem _ member)
    have here := either r List.mem_cons_self
    unfold RoundLog.earned
    rw [others]
    by_cases first : counts r
    · have second : ¬counts' r := fun also => apart r ⟨first, also⟩
      rw [if_pos first, if_neg second, if_pos (here.2 (.inl first)), zero_add, add_assoc]
    · by_cases second : counts' r
      · rw [if_neg first, if_pos second, if_pos (here.2 (.inr second)), zero_add, add_left_comm]
      · rw [if_neg first, if_neg second, if_neg (mt here.1 (not_or.2 ⟨first, second⟩)), zero_add, zero_add,
          zero_add]

/-- What is added up depends only on which rounds count. -/
lemma earned_congr {counts counts' : Round α → Prop} [DecidablePred counts] [DecidablePred counts']
    {rounds : List (Round α)} (same : ∀ r ∈ rounds, counts r ↔ counts' r) :
    RoundLog.earned config counts s t rounds = RoundLog.earned config counts' s t rounds := by
  induction rounds with
  | nil => rfl
  | cons r rest ih =>
    unfold RoundLog.earned
    rw [ih fun r member => same r (List.mem_cons_of_mem _ member),
      if_congr (same r List.mem_cons_self) rfl rfl]

/-- An entry counts for what was earned in that one of the last two periods that has its parity. -/
lemma Tallies.counted (h : Tallies config log b s t e) {k : Nat} (parity : k % 2 = b)
    (le : k ≤ log.period) (recent : log.period ≤ k + 1) :
    (if log.period - 1 ≤ e.period then e.value else 0) =
      RoundLog.earned config (fun r => r.period = k) s t log.rounds := by
  rcases h.parity with same | unwritten
  · by_cases counts : log.period - 1 ≤ e.period
    · have period := h.period_le
      have here : e.period = k := by omega
      rw [if_pos counts, h.earned k parity here.le, if_pos here]
    · have before : e.period ≠ k := by omega
      rw [if_neg counts, h.earned k parity (by omega), if_neg before]
  · rw [h.earned k parity (unwritten ▸ Nat.zero_le k), unwritten, ite_self, ite_self]

/-- An entry that was not written yet does not count. -/
lemma Tallies.unwritten (h : Tallies config log b s t e) (early : log.period = 0) (odd : b = 1) :
    (if log.period - 1 ≤ e.period then e.value else 0) = 0 := by
  have period : e.period = 0 := Nat.le_zero.1 (early ▸ h.period_le)
  have unwritten : e = ⟨0, 0⟩ := h.parity.resolve_left fun same => by
    rw [period, odd] at same
    exact absurd same (by decide)
  rw [unwritten, ite_self]

/-- The entry for even periods has the score if nothing is forgotten. -/
lemma Tallies.score_of_lasting (h : Tallies config log 0 s t e)
    (past : ∀ r ∈ log.rounds, r.period ≤ log.period) (lasting : config.aging = 0) (early : log.period = 0) :
    e.value = log.score config s t := by
  have period : e.period = 0 := Nat.le_zero.1 (early ▸ h.period_le)
  have all := h.earned 0 rfl period.le
  rw [if_pos period] at all
  refine all.symm.trans (earned_congr fun r member => ?_)
  exact iff_of_true (Nat.le_zero.1 (early ▸ past r member)) (.inl lasting)

/-- The entries for even and for odd periods have the score together if rounds are forgotten. -/
lemma Tallies.score_of_ageing {e' : Reward α} (even : Tallies config log 0 s t e)
    (odd : Tallies config log 1 s t e') (past : ∀ r ∈ log.rounds, r.period ≤ log.period)
    (ages : config.aging ≠ 0) :
    (if log.period - 1 ≤ e.period then e.value else 0) +
      (if log.period - 1 ≤ e'.period then e'.value else 0) = log.score config s t := by
  unfold RoundLog.score
  rcases Nat.eq_zero_or_pos log.period with early | late
  · rw [even.counted (k := 0) rfl (Nat.zero_le _) (by omega), odd.unwritten early rfl, add_zero]
    refine earned_congr fun r member => ?_
    have here := past r member
    exact iff_of_true (by omega) (.inr (by omega))
  · have counts : ∀ r ∈ log.rounds, (config.aging = 0 ∨ log.period ≤ r.period + 1) ↔
        r.period = log.period ∨ r.period = log.period - 1 := by
      intro r member
      have here := past r member
      omega
    have apart : ∀ r : Round α, ¬(r.period = log.period ∧ r.period = log.period - 1) := by
      intro r
      omega
    rw [earned_or counts apart]
    rcases Nat.mod_two_eq_zero_or_one log.period with parity | parity
    · rw [even.counted parity le_rfl (Nat.le_succ _),
        odd.counted (k := log.period - 1) (by omega) (Nat.sub_le _ _) (by omega)]
    · rw [odd.counted parity le_rfl (Nat.le_succ _),
        even.counted (k := log.period - 1) (by omega) (Nat.sub_le _ _) (by omega), add_comm]

/-- The values of those of two entries that were written in the given period or later. -/
lemma sum_recent (e e' : Reward α) (period : Nat) :
    Scalar.sum (([e, e'].filter fun r => period ≤ r.period).map Reward.value) =
      (if period ≤ e.period then e.value else 0) + (if period ≤ e'.period then e'.value else 0) := by
  rw [ExactScalar.sum_eq, List.filter_cons, List.filter_cons, List.filter_nil]
  by_cases first : period ≤ e.period <;> by_cases second : period ≤ e'.period <;> simp [first, second]

/-- The matrix gives the score that the log gives. -/
lemma Records.score (h : Records config log n m) (hs : s < n) (ht : t < n) :
    (m.score s t).AnswersIf (n ≤ 4294967296) (· = log.score config s t) := by
  obtain ⟨even, found, tallies⟩ := h.even.entry s hs t ht
  obtain ⟨odd, found', tallies'⟩ := h.odd.entry s hs t ht
  unfold MatrixScorer.score
  rw [h.numJobs, h.aging, h.period]
  refine (cellOf_answersIf hs ht).bind fun cell same => ?_
  subst same
  rw [fetch_of_getElem? found, ok_bind]
  split
  · rename_i lasting
    exact .pure (tallies.score_of_lasting h.past lasting (h.lasting lasting))
  · rename_i ages
    rw [fetch_of_getElem? found', ok_bind]
    refine .pure ?_
    rw [sum_recent]
    exact tallies.score_of_ageing tallies' h.past ages

/-! ## Accepted settings -/

omit [ExactScalar α] in
/-- A check goes on only if what it refuses is not the case. -/
lemma ok_of_guard {ε β : Type} {c : Prop} [Decidable c] {e : ε} {next : Unit → Except ε β} {x : β}
    (h : (if c then throw e >>= next else next ()) = .ok x) : ¬c ∧ next () = .ok x := by
  split at h
  · cases h
  · rename_i fails
    exact ⟨fails, h⟩

omit [ExactScalar α] in
/-- A check goes on only if what it demands is the case. -/
lemma ok_of_unless {ε β : Type} {c : Prop} [Decidable c] {e : ε} {next : Unit → Except ε β} {x : β}
    (h : (if c then next () else throw e >>= next) = .ok x) : c ∧ next () = .ok x := by
  split at h
  · rename_i holds
    exact ⟨holds, h⟩
  · cases h

/-- The settings of the matrix are valid if all settings are accepted. -/
lemma valid_of_check {settings : Config α} (accepted : settings.check = .ok ()) :
    settings.matrix.Valid := by
  unfold Config.check at accepted
  extract_lets last base factor pool fraction window horizon first at accepted
  have begun : first () = .ok () := by
    split at accepted
    · cases accepted
    · exact (ok_of_guard accepted).2
  obtain ⟨-, accepted⟩ := ok_of_guard begun
  obtain ⟨some_rounds, accepted⟩ := ok_of_guard accepted
  obtain ⟨positive, -⟩ := ok_of_unless accepted
  exact ⟨Nat.pos_of_ne_zero some_rounds, positive.1⟩

/-- **Rewards.**  With exact scalars and settings that are accepted, a reinforcement matrix gives after any
events the rewards and the scores that the log of these events gives. -/
theorem reward_and_score_eq_log {settings : Config α} (accepted : settings.check = .ok ())
    {events : List (RoundEvent α)} (within : ∀ event ∈ events, event.Within n) :
    (events.foldlM react (empty n settings.matrix)).AnswersIf (n ≤ 4294967296) fun m =>
      (∀ quality, m.reward quality = RoundLog.reward settings.matrix
        (events.foldl (RoundLog.add settings.matrix) .empty).rounds quality) ∧
      ∀ s < n, ∀ t < n, (m.score s t).AnswersIf (n ≤ 4294967296)
        (· = (events.foldl (RoundLog.add settings.matrix) .empty).score settings.matrix s t) := by
  have valid := valid_of_check accepted
  refine (Records.reacts valid (records_empty valid n) within).imp fun m records => ⟨fun quality => ?_, ?_⟩
  · exact records.reward valid quality
  · exact fun s hs t ht => records.score hs ht

/-! ### Six events -/

/-- Settings with a ring of two rounds, half of which have to be beaten, and with periods of two
iterations. -/
def forgetful : Config ℚ :=
  { Config.default with timeLimit := some 1, matrix := { window := 2, fraction := 1 / 2, aging := 2 } }

/-- The network with one arc between three jobs, which does not belong to the instance. -/
def oneArc : Network where
  outgoing := #[#[], #[], #[⟨0, 0, 1, false, false, false⟩]]
  incoming := #[#[⟨2, 0⟩], #[], #[]]
  arcCount := 1
  generation := 1

/-- Rounds in three periods. -/
def sixEvents : List (RoundEvent ℚ) :=
  [.finish 1 oneArc, .finish 5 oneArc, .iteration 2, .finish (1 / 2) oneArc, .iteration 4, .finish 3 oneArc]

end

/-- After the six events the arc has the score of the second period, and a round as good as the last one would
earn nothing. -/
theorem reward_and_score_eq_log_sixEvents :
    forgetful.check = .ok () ∧ (∀ event ∈ sixEvents, event.Within 3) ∧
      (sixEvents.foldlM react (empty 3 forgetful.matrix)).Answers fun m =>
        m.reward 3 = 0 ∧ (m.score 2 0).Answers (· = 1) := by
  have accepted : forgetful.check = .ok () := by with_unfolding_all rfl
  have within : ∀ event ∈ sixEvents, event.Within 3 := by
    have arc : oneArc.Within 3 := by
      unfold Network.Within
      decide
    simp only [sixEvents, List.forall_mem_cons]
    exact ⟨arc, arc, trivial, arc, trivial, arc, fun _ member => absurd member List.not_mem_nil⟩
  refine ⟨accepted, within, ?_⟩
  refine ((reward_and_score_eq_log accepted within).answers (by decide)).imp fun m ⟨rewards, scores⟩ => ⟨?_, ?_⟩
  · rw [rewards 3]
    decide +kernel
  · refine ((scores 2 (by decide) 0 (by decide)).answers (by decide)).imp fun x same => ?_
    rw [same]
    decide +kernel

end MatrixScorer

end Leveling
