import Leveling.Proofs.Search.Promises

/-!
# Deletion searches leave no trace

A search clears the flags of all arcs that it has touched before it ends, and so the network is as it was.
What it leaves in its own lists does no harm to the next search: a search begins with no job visited
but the root, and the bound of a job that is not visited is never looked at.

So two searches that agree apart from the bounds of the jobs that are not visited are *twins*: they make
the same steps, come to the same plans, and stop with the same faults.
-/

namespace Leveling

open Checked Network

namespace DeletionSearch

variable {F : Frame} {net₀ net net' : Network} {b : Bounds} {side : Side} {top : Nat → Int}
  {safe : Prop} {s s' t t' : DeletionSearch} {root v n : Nat} {ref : ArcRef}

/-! ## Twins -/

/-- The two searches differ at most in the bounds of jobs that are not visited. -/
structure Twin (s t : DeletionSearch) : Prop where
  same : t = { s with current := t.current }
  size : t.current.size = s.current.size
  current : ∀ v, Visited s.visited v → t.current[v]? = s.current[v]?

/-- The two searches are twins, and their networks are the same. -/
def Twins (r r' : DeletionSearch × Network) : Prop := Twin r.1 r'.1 ∧ r'.2 = r.2

/-- The same jobs are visited. -/
lemma Twin.visited (twin : Twin s t) : t.visited = s.visited := by rw [twin.same]

/-- The same jobs are expanded. -/
lemma Twin.expanded (twin : Twin s t) : t.expanded = s.expanded := by rw [twin.same]

/-- The same arcs wait. -/
lemma Twin.queue (twin : Twin s t) : t.queue = s.queue := by rw [twin.same]

/-- The same arcs were pruned. -/
lemma Twin.pruned (twin : Twin s t) : t.pruned = s.pruned := by rw [twin.same]

/-- As many arcs are removed. -/
lemma Twin.removed (twin : Twin s t) : t.removed = s.removed := by rw [twin.same]

/-- The bound of a visited job is fetched. -/
lemma Twin.fetch (twin : Twin s t) (known : Visited s.visited v) :
    Leveling.fetch t.current v = Leveling.fetch s.current v := by
  unfold Leveling.fetch
  rw [twin.current v known]

/-- The bound of a job in the search. -/
lemma Twin.boundOf (twin : Twin s t) (v : Nat) : t.boundOf b side v = s.boundOf b side v := by
  unfold DeletionSearch.boundOf
  rw [twin.visited]
  cases answer : Leveling.fetch s.visited v with
  | error fault => rfl
  | ok known =>
    rw [ok_bind, ok_bind]
    split
    · rename_i isKnown
      exact twin.fetch (fetch_eq_ok.1 (isKnown ▸ answer))
    · rfl

/-- What the unmarked arcs imply. -/
lemma Twin.implied (twin : Twin s t) (v : Nat) :
    ∀ (l : List (Nat × Arc)) (bound : Int),
      t.implied b side v l bound = s.implied b side v l bound
  | [], _ => rfl
  | (u, arc) :: rest, bound => by
    unfold DeletionSearch.implied
    simp only [twin.boundOf, twin.implied v rest]

/-- The visited ones of the listed jobs. -/
lemma Twin.onlyVisited (twin : Twin s t) : ∀ l : List Nat, t.onlyVisited l = s.onlyVisited l
  | [] => rfl
  | v :: rest => by
    unfold DeletionSearch.onlyVisited
    rw [twin.visited, twin.onlyVisited rest]

/-- Only visited jobs are left. -/
lemma onlyVisited_ensures :
    ∀ l : List Nat, (s.onlyVisited l).Ensures fun kept => ∀ v ∈ kept, Visited s.visited v
  | [] => .pure fun _ member => absurd member List.not_mem_nil
  | v :: rest => by
    unfold DeletionSearch.onlyVisited
    refine Ensures.same.bind fun known answer => ?_
    refine (onlyVisited_ensures rest).bind fun others known_others => .pure fun x member => ?_
    split at member
    · rename_i isKnown
      rcases List.mem_cons.1 member with rfl | member
      · exact fetch_eq_ok.1 (isKnown ▸ answer)
      · exact known_others x member
    · exact known_others x member

/-- The bounds agree after the bound of a job was stored, also at this job. -/
lemma Twin.store (twin : Twin s t) (v : Nat) (bound : Int) :
    Matches (fun d d' => d'.size = d.size ∧ ∀ x, x = v ∨ Visited s.visited x → d'[x]? = d[x]?)
      (Leveling.store s.current v bound) (Leveling.store t.current v bound) := by
  unfold Leveling.store
  by_cases hv : v < s.current.size
  · have hv' : v < t.current.size := lt_of_lt_of_eq hv twin.size.symm
    rw [dif_pos hv, dif_pos hv']
    refine ⟨?_, fun x isKnown => ?_⟩
    · rw [Array.size_set, Array.size_set, twin.size]
    · rw [Array.getElem?_set, Array.getElem?_set]
      rcases isKnown with rfl | known
      · rw [if_pos rfl, if_pos rfl]
      · rw [twin.current x known]
  · rw [dif_neg hv, dif_neg (by rwa [twin.size])]
    exact rfl

/-- The bounds of the waiting jobs, which are visited, are computed anew. -/
lemma Twin.settle :
    ∀ {fuel : Nat} {waiting : List Nat} {s t : DeletionSearch}, Twin s t →
      (∀ v ∈ waiting, Visited s.visited v) →
        Matches Twin (s.settle net b side fuel waiting) (t.settle net b side fuel waiting) := by
  intro fuel
  induction fuel with
  | zero =>
    intro waiting s t twin _
    cases waiting with
    | nil => exact twin
    | cons v rest => exact rfl
  | succ fuel ih =>
    intro waiting s t twin known
    cases waiting with
    | nil => exact twin
    | cons v rest =>
      have known_rest := fun x member => known x (List.mem_cons_of_mem _ member)
      rw [settle_cons, settle_cons]
      simp only [twin.implied, twin.fetch (known v List.mem_cons_self)]
      refine Matches.bind_same fun bound _ => Matches.bind_same fun old _ => ?_
      split
      · exact ih twin known_rest
      · refine (twin.store v bound).bind fun d d' _ _ ⟨size, agree⟩ => ?_
        refine Matches.bind_same fun onward _ => ?_
        rw [twin.onlyVisited]
        refine Matches.bind_same fun next chosen => ?_
        refine ih ⟨?_, size, fun x known_x => agree x (.inr known_x)⟩ fun x member => ?_
        · rw [twin.same]
        · rcases List.mem_append.1 member with member | member
          · exact known_rest x member
          · exact onlyVisited_ensures _ _ chosen x member

/-- The bound of a visited job and those that depend on it are computed anew. -/
lemma Twin.update (twin : Twin s t) (known : Visited s.visited v) :
    Matches Twin (s.update net b side v) (t.update net b side v) :=
  twin.settle fun x member => by rwa [List.mem_singleton.1 member]

/-! ## Steps of twins -/

/-- A job is visited. -/
lemma Twin.visit (twin : Twin s t) (v : Nat) (bound : Int) :
    Matches Twin (s.visit v bound) (t.visit v bound) := by
  unfold DeletionSearch.visit
  rw [twin.visited]
  refine Matches.bind_same fun known _ => ?_
  split
  · exact twin
  · refine Matches.bind_same fun visited stored => ?_
    refine (twin.store v bound).bind fun d d' _ _ ⟨size, agree⟩ => ⟨?_, size, fun x known_x => ?_⟩
    · rw [twin.same]
    · obtain ⟨hv, rfl⟩ := store_eq_ok_iff.1 stored
      exact agree x ((visited_set hv).1 known_x)

/-- The rest of twins that were changed alike outside their bounds. -/
lemma Twin.congr {f : DeletionSearch → DeletionSearch} (twin : Twin s t)
    (same : ∀ (s : DeletionSearch) (c : Array Int),
      f { s with current := c } = { f s with current := c })
    (visited : (f s).visited = s.visited) (current : (f s).current = s.current) :
    Twin (f s) (f t) := by
  have changed : f t = { f s with current := t.current } := by rw [twin.same, same]
  refine ⟨?_, ?_, fun v known => ?_⟩
  · rw [changed]
  · rw [changed, current]
    exact twin.size
  · rw [changed, current]
    exact twin.current v (visited ▸ known)

/-- An arc is put on the queue. -/
lemma Twins.enqueue {r r' : DeletionSearch × Network} (twins : Twins r r') (depth : Nat)
    (ref : ArcRef) : Matches Twins (r.1.enqueue b side depth r.2 ref)
      (r'.1.enqueue b side depth r'.2 ref) := by
  obtain ⟨twin, network⟩ := twins
  unfold DeletionSearch.enqueue
  rw [network]
  refine Matches.bind_same fun arc _ => ?_
  dsimp only
  refine Matches.bind_same fun value _ => ?_
  refine (twin.visit _ value).bind fun s' t' _ _ twin' => ?_
  split
  · refine ⟨?_, rfl⟩
    exact twin'.congr (f := fun s => { s with queue := (ref, depth) :: s.queue }) (fun _ _ => rfl) rfl rfl
  · refine Matches.bind_same fun net' _ => ⟨?_, rfl⟩
    exact twin'.congr (f := fun s =>
      { s with queue := s.queue ++ [(ref, depth)], removed := s.removed + 1 }) (fun _ _ => rfl) rfl rfl

/-- A job is expanded. -/
lemma Twin.expand (twin : Twin s t) (v depth : Nat) :
    Matches Twins (s.expand net b side v depth) (t.expand net b side v depth) := by
  unfold DeletionSearch.expand
  rw [twin.expanded]
  refine Matches.bind_same fun expanded _ => Matches.bind_same fun refs _ => ?_
  refine Matches.foldlM (fun r r' twins ref => ?_) refs ⟨?_, rfl⟩
  · exact Twins.enqueue twins depth ref
  · exact twin.congr (f := fun s => { s with expanded }) (fun _ _ => rfl) rfl rfl

/-- The arc of a step is kept. -/
lemma Twin.keep (twin : Twin s t) {a : Arc}
    (near : Visited s.visited (side.nearEnd ref a)) :
    Matches Twins (s.keep net b side ref a) (t.keep net b side ref a) := by
  unfold DeletionSearch.keep
  split
  · refine Matches.bind_same fun net' _ => ?_
    rw [twin.removed]
    refine Matches.bind_same fun removed _ => ?_
    have twin' : Twin { s with removed } { t with removed } :=
      twin.congr (f := fun s => { s with removed }) (fun _ _ => rfl) rfl rfl
    exact (twin'.update near).bind fun s' t' _ _ twin'' => ⟨twin'', rfl⟩
  · exact ⟨twin, rfl⟩

/-- A step of twins during a search. -/
lemma Twin.step (ground : Ground safe F net₀ b side top) (twin : Twin s t)
    (h : Searching safe F net₀ b side top [] net s) :
    Matches (fun r r' => Twin r.1 r'.1 ∧ r'.2 = r.2) (s.step net b side) (t.step net b side) := by
  obtain ⟨c, rfl⟩ : ∃ c, t = { s with current := c } := ⟨_, twin.same⟩
  unfold DeletionSearch.step
  refine Matches.bind_same fun taken answer => ?_
  obtain ⟨pruned, found, queue⟩ := taken
  have taken := h.take.of_eq_ok answer
  cases found with
  | none => exact ⟨twin.congr (f := fun s => { s with pruned, queue }) (fun _ _ => rfl) rfl rfl, rfl⟩
  | some entry =>
    obtain ⟨ref, depth, a⟩ := entry
    obtain ⟨found, h₁⟩ := taken
    dsimp only at found h₁ ⊢
    have listed : ref ∈ listedArcs { s with pruned, queue := (ref, depth) :: queue } :=
      List.mem_append_left _ (List.mem_append_left _ List.mem_cons_self)
    obtain ⟨near, far⟩ := h₁.ends listed found
    have twin₁ : Twin { s with pruned, queue, seenArcs := s.seenArcs ++ [ref] }
        { s with current := c, pruned, queue, seenArcs := s.seenArcs ++ [ref] } :=
      twin.congr (f := fun s' => { s' with pruned, queue, seenArcs := s'.seenArcs ++ [ref] })
        (fun _ _ => rfl) rfl rfl
    refine Matches.bind_same fun net₁ adjusted => ?_
    have flipped := (adjustArc_answers found rfl).of_eq_ok adjusted
    refine Matches.bind (R := Twins) (twin₁.keep near) ?_
    rintro ⟨s₂, net₂⟩ ⟨t₂, net₂'⟩ kept - ⟨twin₂, network₂⟩
    obtain rfl : net₂' = net₂ := network₂
    obtain ⟨h₂, later, -⟩ := (h₁.keep ground rfl found flipped).ensures _ kept
    have known : Visited s₂.visited (side.farEnd ref a) := later.visited _ far
    dsimp only at twin₂ h₂ ⊢
    rw [twin₂.expanded]
    refine Matches.bind_same fun expanded looked => ?_
    split
    · exact (twin₂.update known).bind fun s₄ t₄ _ _ twin₄ => ⟨twin₄, rfl⟩
    · rename_i new
      refine Matches.bind (R := Twins) (twin₂.expand _ _) ?_
      rintro ⟨s₃, net₃⟩ ⟨t₃, net₃'⟩ grown - ⟨twin₃, network₃⟩
      obtain rfl : net₃' = net₃ := network₃
      have fresh : ¬Visited s₂.expanded (side.farEnd ref a) := fun isExpanded => by
        rw [fetch_of_getElem? isExpanded] at looked
        exact new (Except.ok.inj looked).symm
      obtain ⟨-, later₃, -⟩ := (h₂.expand ground known fresh _).of_eq_ok grown
      exact (twin₃.update (later₃.visited _ known)).bind fun s₄ t₄ _ _ twin₄ => ⟨twin₄, rfl⟩

/-! ## Plans of twins -/

/-- Twins have moved the bound of the root equally far. -/
lemma Twin.moved (twin : Twin s t) (known : Visited s.visited root) :
    t.moved b side root = s.moved b side root := by
  unfold DeletionSearch.moved
  rw [twin.fetch known]

/-- Twins make the same plan. -/
lemma Twin.plan (twin : Twin s t) (achieved : Int) : t.plan net achieved = s.plan net achieved := by
  unfold DeletionSearch.plan DeletionSearch.markedArcs
  rw [twin.pruned, twin.queue]

/-- Twins consider their plans alike on the early side. -/
lemma Twin.considerEarly (twin : Twin s t) (known : Visited s.visited root) (amount : Int)
    (best : Option (Nat × DeletionPlan)) : DeletionSearch.considerEarly b root amount t net best =
      DeletionSearch.considerEarly b root amount s net best := by
  unfold DeletionSearch.considerEarly DeletionSearch.score
  simp only [twin.moved known, twin.plan]
  rw [show t.penalty = s.penalty by rw [twin.same], twin.removed]

/-- Twins consider their plans alike on the late side. -/
lemma Twin.considerLate (twin : Twin s t) (known : Visited s.visited root) (amount : Int)
    (best : Option (Nat × DeletionPlan)) : DeletionSearch.considerLate b root amount t net best =
      DeletionSearch.considerLate b root amount s net best := by
  unfold DeletionSearch.considerLate
  simp only [twin.moved known, twin.plan]
  rw [twin.removed]

/-! ## Whole searches of twins -/

/-- A rule that considers the plans of twins alike as soon as the root is visited. -/
def Fair (root : Nat) (consider : Rule) : Prop :=
  ∀ ⦃s t : DeletionSearch⦄, Twin s t → Visited s.visited root →
    ∀ net best, consider t net best = consider s net best

/-- The rounds of twins. -/
lemma Twin.explore {consider : Rule} (ground : Ground safe F net₀ b side top) (fair : Fair root consider) :
    ∀ {fuel : Nat} {s t : DeletionSearch} {net : Network} {best : Option (Nat × DeletionPlan)},
      Twin s t → Searching safe F net₀ b side top [] net s → Visited s.visited root →
        Matches (fun r r' => Twin r.1 r'.1 ∧ r'.2 = r.2) (explore b side consider fuel s net best)
          (explore b side consider fuel t net best) := by
  intro fuel
  induction fuel with
  | zero => exact fun _ _ _ => rfl
  | succ fuel ih =>
    intro s t net best twin h known
    unfold DeletionSearch.explore
    refine (twin.step ground h).bind ?_
    rintro ⟨s', next⟩ ⟨t', next'⟩ stepped - ⟨twin', same⟩
    obtain rfl : next = next' := same.symm
    obtain ⟨later, h'⟩ := (h.step ground).ensures _ stepped
    have known' := later.visited root known
    cases next with
    | none => exact ⟨twin', rfl⟩
    | some net' =>
      dsimp only at twin' known' ⊢
      rw [fair twin' known']
      exact Matches.bind_same fun best' _ => ih twin' h'.1 known'

/-- Searches that begin with the same root are twins. -/
lemma Started.twin {bound : Int} (h : Started n root bound s s') (h' : Started n root bound t t')
    (maxDepth : t.maxDepth = s.maxDepth) (penalty : t.penalty = s.penalty) : Twin s' t' := by
  have bools : ∀ {xs ys : Array Bool}, xs.size = ys.size → (∀ v, Visited xs v ↔ Visited ys v) →
      ys = xs := by
    intro xs ys size same
    refine Array.ext size.symm fun v hy hx => ?_
    have both := same v
    unfold Visited at both
    rw [Array.getElem?_eq_getElem hx, Array.getElem?_eq_getElem hy, Option.some_inj,
      Option.some_inj] at both
    exact (Bool.eq_iff_iff.2 both).symm
  have visited : t'.visited = s'.visited := bools (h.sized.visited.trans h'.sized.visited.symm)
    fun v => h.visited.trans h'.visited.symm
  have expanded : t'.expanded = s'.expanded := bools (h.sized.expanded.trans h'.sized.expanded.symm)
    fun v => iff_of_false (h.expanded v) (h'.expanded v)
  have lists : ∀ {s : DeletionSearch}, s.listedArcs = [] →
      s.queue = [] ∧ s.pruned = [] ∧ s.seenArcs = [] := by
    intro s listed
    unfold listedArcs waitingArcs at listed
    obtain ⟨waiting, seen⟩ := List.append_eq_nil_iff.1 listed
    obtain ⟨queued, pruned⟩ := List.append_eq_nil_iff.1 waiting
    exact ⟨List.map_eq_nil_iff.1 queued, pruned, seen⟩
  obtain ⟨queue, pruned, seen⟩ := lists h.listed
  obtain ⟨queue', pruned', seen'⟩ := lists h'.listed
  have depths : t'.maxDepth = s'.maxDepth := (h'.maxDepth.trans maxDepth).trans h.maxDepth.symm
  have penalties : t'.penalty = s'.penalty := (h'.penalty.trans penalty).trans h.penalty.symm
  have touched := h'.touched.trans h.touched.symm
  have removed := h'.removed.trans h.removed.symm
  refine ⟨?_, h'.sized.current.trans h.sized.current.symm, fun v known => ?_⟩
  · cases s'
    cases t'
    simp_all
  · obtain rfl := h.visited.1 known
    have hv := h.sized.lt_of_visited known
    have here := fetch_valueAt (lt_of_lt_of_eq hv h.sized.current.symm)
    have there := fetch_valueAt (lt_of_lt_of_eq hv h'.sized.current.symm)
    rw [h.current] at here
    rw [h'.current] at there
    rw [fetch_eq_ok.1 here, fetch_eq_ok.1 there]

/-- Whole searches with the same root and rule, from states that agree in depth and penalty. -/
lemma run_matches {consider : Rule} (ground : Ground safe F net₀ b side top)
    (clean : net₀.flagged = 0) (sized : s.Sized F.size) (sized' : t.Sized F.size)
    (maxDepth : t.maxDepth = s.maxDepth) (penalty : t.penalty = s.penalty) (hv : root < F.size)
    (fair : Fair root consider) :
    Matches (fun r r' => r'.1 = r.1 ∧ r'.2.2 = r.2.2) (s.run net₀ b side root consider)
      (t.run net₀ b side root consider) := by
  have base : fetch (b.table side).base root = .ok (valueAt (b.table side).base root) :=
    fetch_valueAt (lt_of_lt_of_eq hv ground.base_size.symm)
  obtain ⟨s₁, starts, started⟩ := sized.start hv (valueAt (b.table side).base root)
  obtain ⟨t₁, starts', started'⟩ := sized'.start hv (valueAt (b.table side).base root)
  have twin₁ := started.twin started' maxDepth penalty
  have h₁ := started.searching ground clean
  have known := started.visited.2 rfl
  unfold run
  rw [base, ok_bind, starts, ok_bind, ok_bind, starts', ok_bind]
  refine Matches.bind (R := Twins) (twin₁.expand root 0) ?_
  rintro ⟨s₂, net₂⟩ ⟨t₂, net₂'⟩ grown - ⟨twin₂, network₂⟩
  obtain rfl : net₂' = net₂ := network₂
  obtain ⟨h₂, later, -⟩ := (h₁.expand ground known (started.expanded root) 0).of_eq_ok grown
  have known₂ := later.visited root known
  dsimp only at twin₂ h₂ ⊢
  refine (twin₂.update known₂).bind fun s₃ t₃ updated _ twin₃ => ?_
  obtain ⟨h₃, settled⟩ := (h₂.update ground known₂ fun x member =>
    List.mem_singleton.1 member).ensures _ updated
  have known₃ : Visited s₃.visited root := by
    rw [settled.same]
    exact known₂
  rw [fair twin₃ known₃]
  refine Matches.bind_same fun best _ => ?_
  refine Matches.bind (R := fun r r' => Twin r.1 r'.1 ∧ r'.2 = r.2)
    (twin₃.explore ground fair h₃ known₃) ?_
  rintro ⟨s₄, net₄, best'⟩ ⟨t₄, rest⟩ - - ⟨twin₄, same⟩
  obtain rfl : rest = (net₄, best') := same
  dsimp only at twin₄ ⊢
  unfold DeletionSearch.finish
  rw [twin₄.pruned, twin₄.queue, show t₄.seenArcs = s₄.seenArcs by rw [twin₄.same]]
  simp only [bind_assoc]
  refine Matches.bind_same fun _ _ => Matches.bind_same fun _ _ => Matches.bind_same fun _ _ => ?_
  exact ⟨rfl, rfl⟩

/-! ## One search after the other -/

/-- What one search is asked: for which network and bounds, on which side, for which job and amount. -/
structure Query where
  network : Network
  bounds : Bounds
  side : Side
  job : Nat
  amount : Int

/-- Asks one search. -/
def ask (s : DeletionSearch) (q : Query) :
    Checked (Option DeletionPlan × DeletionSearch × Network) :=
  match q.side with
  | .early => do
    let (plan, s, net) ← s.backward q.network q.bounds q.job q.amount
    return (some plan, s, net)
  | .late => s.forward q.network q.bounds q.job q.amount

/-- Asks one query after the other, always with what the last search has left. -/
def askAll : DeletionSearch → List Query → Checked (List (Option DeletionPlan × Network))
  | _, [] => .ok []
  | s, q :: rest => do
    let (plan, s, net) ← s.ask q
    let answers ← s.askAll rest
    return (plan, net) :: answers

/-- A search leaves the network as it was, and a state for the next search. -/
lemma ask_answers {q : Query} (ground : Ground safe F q.network q.bounds q.side top)
    (clean : q.network.flagged = 0) (sized : s.Sized F.size) (hv : q.job < F.size)
    (affordable : safe → Affordable q.network s.penalty q.amount ∧ q.amount ≤ greatestTime) :
    (s.ask q).AnswersIf safe fun r => Left F.size s q.network r.2.1 r.2.2 := by
  obtain ⟨net, b, side, job, amount⟩ := q
  cases side with
  | early =>
    exact (backward_answers ground clean sized hv affordable).bind fun r ⟨_, left⟩ => .pure left
  | late => exact (forward_answers ground clean sized hv).imp fun r => And.right

/-- The same query to two states that agree in depth and penalty. -/
lemma ask_matches {q : Query} (ground : Ground safe F q.network q.bounds q.side top)
    (clean : q.network.flagged = 0) (sized : s.Sized F.size) (sized' : t.Sized F.size)
    (maxDepth : t.maxDepth = s.maxDepth) (penalty : t.penalty = s.penalty) (hv : q.job < F.size) :
    Matches (fun r r' => r'.1 = r.1 ∧ r'.2.2 = r.2.2) (s.ask q) (t.ask q) := by
  obtain ⟨net, b, side, job, amount⟩ := q
  cases side with
  | early =>
    have fair : Fair job (DeletionSearch.considerEarly b job amount) := fun _ _ twin known _ best =>
      twin.considerEarly known amount best
    unfold ask backward
    dsimp only
    split
    · exact ⟨rfl, rfl⟩
    · simp only [bind_assoc]
      refine Matches.bind_same fun stored _ => Matches.bind_same fun base _ => ?_
      split
      · exact ⟨rfl, rfl⟩
      · simp only [bind_assoc]
        refine (run_matches ground clean sized sized' maxDepth penalty hv fair).bind ?_
        rintro ⟨best, s', net'⟩ ⟨best', t', net''⟩ - - ⟨same_best, same_net⟩
        obtain rfl : best' = best := same_best
        obtain rfl : net'' = net' := same_net
        exact ⟨rfl, rfl⟩
  | late =>
    have fair : Fair job (DeletionSearch.considerLate b job amount) := fun _ _ twin known _ best =>
      twin.considerLate known amount best
    unfold ask forward
    dsimp only
    split
    · exact ⟨rfl, rfl⟩
    · refine Matches.bind_same fun stored _ => Matches.bind_same fun base _ => ?_
      split
      · exact ⟨rfl, rfl⟩
      · refine (run_matches ground clean sized sized' maxDepth penalty hv fair).bind ?_
        rintro ⟨best, s', net'⟩ ⟨best', t', net''⟩ - - ⟨same_best, same_net⟩
        obtain rfl : best' = best := same_best
        obtain rfl : net'' = net' := same_net
        exact ⟨rfl, rfl⟩

end DeletionSearch

namespace Problem

variable {α : Type} {p : Problem α} {depth penalty : Nat}

open DeletionSearch

/-- Every search of a sequence of searches with one state leaves the network as it was, and answers what a
new search would answer, whatever was asked before and for which networks and bounds.  The sequence
stops with an overflow exactly if one of the new searches does. -/
theorem searches_leave_no_trace [Scalar α] {jobs : Array (Job α)} {resources : List (Resource α)}
    {given : List Precedence} (accepted : (Problem.build jobs resources given).Accepts p)
    (timely : p.Timely) {queries : List Query}
    (ready : ∀ q ∈ queries, p.Searchable q.network q.bounds ∧ q.job < p.jobs.size) :
    ((empty p.jobs.size depth penalty).askAll queries).AnswersIf
      (∀ q ∈ queries, (empty p.jobs.size depth penalty).ask q ≠ .error .overflow) fun answers =>
        List.Forall₂ (fun q answer => answer.2 = q.network ∧
          ∃ s', (empty p.jobs.size depth penalty).ask q = .ok (answer.1, s', answer.2))
          queries answers := by
  have built := Problem.built_of_build accepted
  have size := built.size_frame timely
  have sized := sized_empty (built.frame timely).size depth penalty
  rw [← size] at ready ⊢
  -- the sequence may begin with any state that agrees with a new one in depth and penalty
  suffices every : ∀ s : DeletionSearch, s.Sized (built.frame timely).size → s.maxDepth = depth →
      s.penalty = penalty → (s.askAll queries).AnswersIf _ _ from every _ sized rfl rfl
  induction queries with
  | nil => exact fun _ _ _ _ => .ok .nil
  | cons q rest ih =>
    intro s sized' maxDepth same_penalty
    obtain ⟨searchable, hv⟩ := ready q List.mem_cons_self
    have rest_ready := fun q member => ready q (List.mem_cons_of_mem _ member)
    have ground := searchable.ground built timely q.side fun _ => 0
    have alike := ask_matches ground searchable.clean sized sized' maxDepth same_penalty hv
    have left := (ask_answers ground searchable.clean sized' hv False.elim).ensures
    have fresh := ask_answers ground searchable.clean sized hv False.elim
    unfold askAll
    rcases fresh with ⟨⟨plan, s₀, net⟩, answer, left₀⟩ | ⟨-, stops⟩
    · rw [answer] at alike
      cases asked : s.ask q with
      | error fault =>
        rw [asked] at alike
        exact alike.elim
      | ok r =>
        obtain ⟨plan', s', net'⟩ := r
        rw [asked] at alike
        obtain ⟨rfl, rfl⟩ := alike
        have left := left _ asked
        rw [ok_bind]
        refine ((ih rest_ready s' left.sized (left.maxDepth.trans maxDepth)
          (left.penalty.trans same_penalty)).mono fun fine q member =>
            fine q (List.mem_cons_of_mem _ member)).bind fun answers others => .pure ?_
        exact .cons ⟨left.network, s₀, answer⟩ others
    · rw [stops] at alike
      cases asked : s.ask q with
      | ok r =>
        rw [asked] at alike
        exact alike.elim
      | error fault =>
        rw [asked] at alike
        obtain rfl : Fault.overflow = fault := alike
        exact .inr ⟨fun fine => fine q List.mem_cons_self stops, rfl⟩

/-- Three searches in the network of the two jobs, on both sides. -/
def serialQueries : List Query :=
  [⟨serial, serialBounds, .early, 1, 4⟩, ⟨serial, serialBounds, .late, 0, 2⟩,
    ⟨serial, serialBounds, .early, 1, 4⟩]

/-- The third of three searches with one state finds what it would have found as the first one. -/
theorem searches_leave_no_trace_serial : (Problem.build loose.jobs [] []).Accepts loose ∧
    loose.Timely ∧ (∀ q ∈ serialQueries, loose.Searchable q.network q.bounds ∧ q.job < 2) ∧
    ((empty 2 2 5).askAll serialQueries).Answers fun answers =>
      List.Forall₂ (fun q answer => answer.2 = q.network ∧
        ∃ s', (empty 2 2 5).ask q = .ok (answer.1, s', answer.2)) serialQueries answers := by
  have ready : ∀ q ∈ serialQueries, loose.Searchable q.network q.bounds ∧ q.job < 2 := by
    simp only [serialQueries, List.forall_mem_cons, List.not_mem_nil, false_implies, implies_true,
      and_true]
    exact ⟨⟨searchable_serial, by decide⟩, ⟨searchable_serial, by decide⟩, searchable_serial, by decide⟩
  exact ⟨loose_accepted, loose_timely, ready,
    (searches_leave_no_trace loose_accepted loose_timely ready).answers (by decide +kernel)⟩

/-- A search for the greatest of all amounts does not answer, since the penalty for what it misses is too
large a number. -/
theorem search_overflow_far : (Problem.build loose.jobs [] []).Accepts loose ∧ loose.Timely ∧
    loose.Searchable serial serialBounds ∧ loose.ExactBounds serial.HasArc serialBounds ∧
    (empty 2 6 3).ask ⟨serial, serialBounds, .early, 1, greatestTime⟩ = .error .overflow :=
  ⟨loose_accepted, loose_timely, searchable_serial, exactBounds_serial, by decide +kernel⟩

end Problem

end Leveling
