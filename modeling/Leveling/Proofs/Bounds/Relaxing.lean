import Leveling.Bounds.Relax
import Leveling.Proofs.Bounds.Tightening

/-!
# Relaxing

While bounds are relaxed, no height is ever below what its floor and the arcs demand, and a
height that is above all of these demands belongs to a job on the stack.  When the stack is
empty every height is therefore tight, and since the arcs close no cycle, tight heights are
the right ones.
-/

namespace Leveling

open Checked Network

variable {F : Frame} {net : Network} {side : Side} {before : Array Int} {t t' : BoundTable}
  {safe : Prop} {top : Nat → Int} {u v w : Nat} {lag : Int} {changed stack : List Nat}

/-! ## Arithmetic -/

/-- The checked arithmetic of a step answers where a bound of height `h` travels over an arc. -/
def Crosses (F : Frame) (side : Side) (u w : Nat) (lag h : Int) : Prop :=
  side.origin F.durations u (F.boundOf side u h) = .ok (side.startOf h) ∧
    side.carry F.durations (side.startOf h) lag w = .ok (F.boundOf side w (h + lag))

/-- The checked arithmetic of a step answers wherever a bound between the floor and `top` travels over an
arc. -/
def Carries (F : Frame) (net : Network) (side : Side) (top : Nat → Int) : Prop :=
  ∀ {u w lag}, net.Leads side u w lag → ∀ {h}, F.floor side u ≤ h → h ≤ top u →
    Crosses F side u w lag h

/-- No height is below what its floor and the arcs demand. -/
def Enough (F : Frame) (net : Network) (side : Side) (h : Nat → Int) : Prop :=
  ∀ v, h v ∈ upperBounds (demands (net.Leads side) (F.floor side) h v)

section

variable {h : Nat → Int} {x : Int}

/-- Heights that are enough are above their floors. -/
lemma Enough.above (enough : Enough F net side h) (v : Nat) : F.floor side v ≤ h v :=
  enough v (.inl rfl)

/-- Heights that are enough give what an arc demands. -/
lemma Enough.arcs (enough : Enough F net side h) (arc : net.Leads side u w lag) : h u + lag ≤ h w :=
  enough w (.inr ⟨u, lag, arc, rfl⟩)

/-- Heights that are enough are no less than the largest sums. -/
lemma Enough.le_of_longest (enough : Enough F net side h)
    (longest : IsLongest (net.Leads side) (F.floor side) v x) : x ≤ h v := by
  obtain ⟨k, len, walk, rfl⟩ := longest.1
  exact walk.le_of_arcs enough.above enough.arcs

end

/-- If no lag is shorter than the duration of its source, what the deadlines demand is in the range of
times. -/
lemma fits_of_lags (lags : ∀ {u w lag}, net.HasArc u w lag → valueAt F.durations u ≤ lag) :
    Fits F net F.deadlines := by
  intro u w lag arc
  have long := lags arc
  have deadline := F.deadline_le u
  have nonneg := F.duration_nonneg u
  dsimp only [Frame.heights, Frame.height, Frame.boundOf]
  omega

/-- If what the deadlines demand is in the range of times, so is what all sound heights demand. -/
lemma Fits.of_above (fits : Fits F net F.deadlines) {value : Array Int}
    (above : ∀ v, F.floor side v ≤ F.heights side value v) : side = .late → Fits F net value := by
  rintro rfl
  exact Fits.rise (fun _ => fits) above rfl

/-- The arithmetic answers below heights that leave room for all jobs, if what the deadlines demand is in
the range of times. -/
lemma Fits.carries (fits : Fits F net F.deadlines) (linked : net.Linked) (size : net.numJobs = F.size)
    (nonneg : ∀ {u w lag}, net.HasArc u w lag → 0 ≤ lag) (below : ∀ v, top v ≤ F.ceiling side v)
    (capped : ∀ {u w lag}, net.Leads side u w lag → top u + lag ≤ F.ceiling side w) :
    Carries F net side top := by
  intro u w lag arc h lower upper
  have ends := linked.lt_of_leads arc
  rw [size] at ends
  have room := capped arc
  have nonneg : 0 ≤ lag := by
    cases side with
    | early => exact nonneg arc
    | late => exact nonneg arc
  have stands : F.height side u (F.boundOf side u h) = h := Frame.height_boundOf
  unfold Crosses
  refine ⟨?_, Frame.carry_eq ends.2 lower nonneg (by omega) ?_⟩
  · have origin := Frame.origin_eq (b := F.boundOf side u h) ends.1 (by rwa [stands])
      (stands.trans_le (upper.trans (below u)))
    rwa [stands] at origin
  · cases side with
    | early => exact Frame.fits_early (by omega)
    | late =>
      have atFloor := fits arc
      dsimp only [Frame.boundOf, Frame.heights, Frame.floor, Frame.limit] at atFloor lower ⊢
      omega

/-- The start that a bound stands for, unless it leaves the range of times. -/
lemma Crosses.origin {bound : Int} (crosses : safe → Crosses F side u w lag (F.height side u bound))
    (hu : u < F.size) : (side.origin F.durations u bound).AnswersIf safe fun start =>
      start = side.startOf (F.height side u bound) := by
  refine .of_eq_or (Frame.origin_eq_or hu bound) (fun isSafe => ?_) rfl
  have answer := (crosses isSafe).1
  rwa [Frame.boundOf_height] at answer

/-- The bound that a job gets over an arc, unless it leaves the range of times. -/
lemma Crosses.carry {h : Int} (crosses : safe → Crosses F side u w lag h) (hw : w < F.size) :
    (side.carry F.durations (side.startOf h) lag w).AnswersIf safe fun bound =>
      bound = F.boundOf side w (h + lag) :=
  .of_eq_or (Frame.carry_eq_or hw h lag) (fun isSafe => (crosses isSafe).2) rfl

/-- The larger of two numbers and others: each of the two is one of them. -/
lemma isGreatest_max {β : Type} [LinearOrder β] {P : β → Prop} {x y r : β}
    (greatest : IsGreatest {z | z = max x y ∨ P z} r) : IsGreatest {z | z = x ∨ z = y ∨ P z} r := by
  obtain ⟨attained, upper⟩ := greatest
  have both := upper (.inl rfl)
  constructor
  · rcases attained with same | other
    · rcases max_choice x y with h | h
      · exact .inl (same.trans h)
      · exact .inr (.inl (same.trans h))
    · exact .inr (.inr other)
  · rintro z (rfl | rfl | other)
    · exact (le_max_left _ _).trans both
    · exact (le_max_right _ _).trans both
    · exact upper (.inr other)

/-! ## Jobs that are looked at -/

/-- What the relaxed bounds need: the arcs close no cycle, and if it is to be safe, the arithmetic answers for
all heights up to those before that are enough. -/
structure Relaxable (safe : Prop) (F : Frame) (net : Network) (side : Side) (before : Array Int) :
    Prop where
  linked : net.Linked
  size : net.numJobs = F.size
  acyclic : Acyclic net.HasArc
  crosses : safe → ∀ {h : Nat → Int}, Enough F net side h → (∀ v, h v ≤ F.heights side before v) →
    ∀ {u w lag}, net.Leads side u w lag → Crosses F side u w lag (h u)

/-- What holds while the jobs of a stack are looked at. -/
structure Loosening (F : Frame) (net : Network) (side : Side) (before : Array Int) (t : BoundTable)
    (changed stack : List Nat) : Prop where
  limit : t.limit = F.limit side
  size : t.value.size = F.size
  le : ∀ v, F.heights side t.value v ≤ F.heights side before v
  enough : Enough F net side (F.heights side t.value)
  tight : ∀ v, IsTight (net.Leads side) (F.floor side) (F.heights side t.value) v ∨ v ∈ stack
  moved : ∀ v, valueAt t.value v ≠ valueAt before v → v ∈ changed
  stack_lt : ∀ v ∈ stack, v < F.size
  changed_lt : ∀ v ∈ changed, v < F.size

/-- A pair of a list is the first one or one of the others. -/
lemma exists_pair_cons {β γ : Type} {x : β} {y : γ} {l : List (β × γ)} {P : β → γ → Prop} :
    (∃ x' y', (x', y') ∈ (x, y) :: l ∧ P x' y') ↔ P x y ∨ ∃ x' y', (x', y') ∈ l ∧ P x' y' := by
  have pairs := List.exists_mem_cons (a := (x, y)) (l := l) (p := fun q => P q.1 q.2)
  simpa only [Prod.exists, exists_prop] using pairs

/-- The bound that the listed neighbours and another bound imply together is the highest of them. -/
lemma implied_answersIf (linked : net.Linked) (jobs : net.numJobs = F.size)
    (size : t.value.size = F.size) (crosses : safe → ∀ {u w lag}, net.Leads side u w lag →
      Crosses F side u w lag (F.heights side t.value u)) {l : List (Nat × Arc)} :
    ∀ {bound : Int}, (∀ u a, (u, a) ∈ l → net.Step side u v a) →
      (t.implied F.durations side v l bound).AnswersIf safe fun r =>
        IsGreatest {y | y = F.height side v bound ∨
          ∃ u a, (u, a) ∈ l ∧ y = F.heights side t.value u + a.lag} (F.height side v r) := by
  unfold BoundTable.implied
  induction l with
  | nil =>
    intro bound _
    refine .pure ⟨.inl rfl, ?_⟩
    rintro y (rfl | ⟨u, a, impossible, -⟩)
    · exact Int.le_refl _
    · exact absurd impossible List.not_mem_nil
  | cons first rest ih =>
    obtain ⟨u, a⟩ := first
    intro bound steps
    have step := steps u a List.mem_cons_self
    have arc : net.Leads side u v a.lag := leads_iff.2 ⟨a, step, rfl⟩
    have ends := linked.lt_of_step step
    rw [jobs] at ends
    rw [List.foldlM_cons]
    dsimp only
    rw [fetch_valueAt (lt_of_lt_of_eq ends.1 size.symm), ok_bind]
    refine AnswersIf.bind (P := fun bound' => bound' = side.tighter bound
      (F.boundOf side v (F.heights side t.value u + a.lag))) ?_ fun bound' same => ?_
    · refine (Crosses.origin (fun isSafe => crosses isSafe arc) ends.1).bind fun start same => ?_
      rw [same]
      refine (Crosses.carry (fun isSafe => crosses isSafe arc) ends.2).bind fun carried same' => ?_
      rw [same']
      exact .pure rfl
    · refine (ih fun u a member => steps u a (List.mem_cons_of_mem _ member)).imp fun r greatest => ?_
      rw [same, F.height_tighter, Frame.height_boundOf] at greatest
      simp only [exists_pair_cons]
      exact isGreatest_max greatest

/-- The loosest bound that a job may have is the highest one that is demanded. -/
lemma required_answersIf (linked : net.Linked) (jobs : net.numJobs = F.size)
    (limit : t.limit = F.limit side) (size : t.value.size = F.size)
    (crosses : safe → ∀ {u w lag}, net.Leads side u w lag →
      Crosses F side u w lag (F.heights side t.value u)) (hv : v < F.size) :
    (t.required F.durations net side v).AnswersIf safe fun r =>
      IsGreatest (demands (net.Leads side) (F.floor side) (F.heights side t.value) v)
        (F.height side v r) := by
  unfold BoundTable.required
  refine (linked.backward side (lt_of_lt_of_eq hv jobs.symm)).answersIf.bind fun l steps => ?_
  rw [limit, fetch_valueAt (lt_of_lt_of_eq hv (F.size_limit side).symm), ok_bind]
  refine (implied_answersIf linked jobs size crosses fun u a => (steps u a).1).imp
    fun r greatest => ?_
  have same : demands (net.Leads side) (F.floor side) (F.heights side t.value) v =
      {y | y = F.height side v (valueAt (F.limit side) v) ∨
        ∃ u a, (u, a) ∈ l ∧ y = F.heights side t.value u + a.lag} := by
    ext y
    refine or_congr Iff.rfl ⟨?_, ?_⟩
    · rintro ⟨u, lag, arc, rfl⟩
      obtain ⟨a, step, rfl⟩ := leads_iff.1 arc
      exact ⟨u, a, (steps u a).2 step, rfl⟩
    · rintro ⟨u, a, member, rfl⟩
      exact ⟨u, a.lag, leads_iff.2 ⟨a, (steps u a).1 member, rfl⟩, rfl⟩
  rwa [same]

/-- The loosest bound that a job may have while the jobs of a stack are looked at. -/
lemma Loosening.required (now : Loosening F net side before t changed stack)
    (ok : Relaxable safe F net side before) (hv : v < F.size) :
    (t.required F.durations net side v).AnswersIf safe fun r =>
      IsGreatest (demands (net.Leads side) (F.floor side) (F.heights side t.value) v)
        (F.height side v r) :=
  required_answersIf ok.linked ok.size now.limit now.size
    (fun isSafe => ok.crosses isSafe now.enough now.le) hv

/-! ## A step -/

/-- The demands on a job after the height of another one was lowered. -/
lemma demands_lower {R : Nat → Nat → Int → Prop} {floor h h' : Nat → Int} (le : ∀ x, h' x ≤ h x)
    {y : Int} (hy : y ∈ upperBounds (demands R floor h w)) : y ∈ upperBounds (demands R floor h' w) := by
  rintro z (rfl | ⟨u, lag, arc, rfl⟩)
  · exact hy (.inl rfl)
  · have := hy (.inr ⟨u, lag, arc, rfl⟩)
    have := le u
    omega

/-- The demands on a job after arcs were deleted. -/
lemma demands_sub {R S : Nat → Nat → Int → Prop} {floor h : Nat → Int}
    (sub : ∀ {u w lag}, R u w lag → S u w lag) {y : Int}
    (hy : y ∈ upperBounds (demands S floor h w)) : y ∈ upperBounds (demands R floor h w) := by
  rintro z (rfl | ⟨u, lag, arc, rfl⟩)
  · exact hy (.inl rfl)
  · exact hy (.inr ⟨u, lag, sub arc, rfl⟩)

/-- A job whose height was lowered to the highest demand is tight, as no arc leads from a job to itself. -/
lemma isTight_lowered {R : Nat → Nat → Int → Prop} {floor h h' : Nat → Int}
    (greatest : IsGreatest (demands R floor h v) (h' v)) (le : ∀ x, h' x ≤ h x)
    (others : ∀ x, x ≠ v → h' x = h x) (apart : ∀ {u lag}, R u v lag → u ≠ v) :
    IsTight R floor h' v := by
  refine ⟨?_, demands_lower le greatest.2⟩
  rcases greatest.1 with same | ⟨u, lag, arc, same⟩
  · exact .inl same
  · refine .inr ⟨u, lag, arc, ?_⟩
    rw [others u (apart arc), same]

/-- A tight job stays tight after the height of another one was lowered, unless an arc leads from there. -/
lemma IsTight.lower {R : Nat → Nat → Int → Prop} {floor h h' : Nat → Int} (tight : IsTight R floor h w)
    (le : ∀ x, h' x ≤ h x) (others : ∀ x, x ≠ v → h' x = h x) (other : w ≠ v) :
    IsTight R floor h' w ∨ ∃ lag, R v w lag := by
  have bounded : h' w ∈ upperBounds (demands R floor h' w) := by
    rw [others w other]
    exact demands_lower le tight.2
  rcases tight.1 with same | ⟨u, lag, arc, same⟩
  · exact .inl ⟨.inl ((others w other).trans same), bounded⟩
  · by_cases from_v : u = v
    · subst from_v
      exact .inr ⟨lag, arc⟩
    · refine .inl ⟨.inr ⟨u, lag, arc, ?_⟩, bounded⟩
      rw [others w other, others u from_v, same]

/-- Lowering the height of a job to what is demanded of it.  The jobs that its arcs lead to have to be
looked at afterwards. -/
lemma Loosening.lower {others next : List Nat} {bound : Int}
    (now : Loosening F net side before t changed (v :: others))
    (ok : Relaxable safe F net side before)
    (greatest : IsGreatest (demands (net.Leads side) (F.floor side) (F.heights side t.value) v)
      (F.height side v bound))
    (lower : F.height side v bound < F.heights side t.value v) (hv : v < t.value.size)
    (onward : ∀ w lag, net.Leads side v w lag → w ∈ next) (next_lt : ∀ w ∈ next, w < F.size) :
    Loosening F net side before { t with value := t.value.set v bound hv } (v :: changed)
      (next ++ others) := by
  have own : F.heights side (t.value.set v bound hv) v = F.height side v bound := by
    rw [heights_set, if_pos rfl]
  have kept : ∀ x, x ≠ v → F.heights side (t.value.set v bound hv) x = F.heights side t.value x :=
    fun x other => by rw [heights_set, if_neg other]
  have le : ∀ x, F.heights side (t.value.set v bound hv) x ≤ F.heights side t.value x := by
    intro x
    by_cases at_v : x = v
    · subst at_v
      exact own ▸ Int.le_of_lt lower
    · exact Int.le_of_eq (kept x at_v)
  have here : IsTight (net.Leads side) (F.floor side)
      (F.heights side (t.value.set v bound hv)) v :=
    isTight_lowered (own.symm ▸ greatest) le kept (acyclic_leads ok.acyclic side).ne
  refine ⟨now.limit, by rw [Array.size_set, now.size], fun x => (le x).trans (now.le x),
    fun x => ?_, fun x => ?_, fun x differs => ?_, fun x member => ?_, fun x member => ?_⟩
  · by_cases at_v : x = v
    · subst at_v
      exact here.2
    · dsimp only
      rw [kept x at_v]
      exact demands_lower le (now.enough x)
  · by_cases at_v : x = v
    · subst at_v
      exact .inl here
    · rcases now.tight x with tight | onStack
      · refine (tight.lower le kept at_v).imp_right ?_
        rintro ⟨lag, arc⟩
        exact List.mem_append_left _ (onward x lag arc)
      · rcases List.mem_cons.1 onStack with same | member
        · exact absurd same at_v
        · exact .inr (List.mem_append_right _ member)
  · dsimp only at differs
    rw [valueAt_set] at differs
    split at differs
    · rename_i at_v
      subst at_v
      exact List.mem_cons_self
    · exact List.mem_cons_of_mem _ (now.moved x differs)
  · rcases List.mem_append.1 member with fresh | old
    · exact next_lt x fresh
    · exact now.stack_lt x (List.mem_cons_of_mem _ old)
  · rcases List.mem_cons.1 member with rfl | member
    · exact lt_of_lt_of_eq hv now.size
    · exact now.changed_lt x member

/-- A job whose height is no more than what is demanded of it leaves the stack. -/
lemma Loosening.skip {others : List Nat}
    (now : Loosening F net side before t changed (v :: others))
    (tight : IsTight (net.Leads side) (F.floor side) (F.heights side t.value) v) :
    Loosening F net side before t changed others := by
  refine { now with
    tight := fun x => ?_
    stack_lt := fun x member => now.stack_lt x (List.mem_cons_of_mem _ member) }
  rcases now.tight x with tight' | onStack
  · exact .inl tight'
  · rcases List.mem_cons.1 onStack with rfl | member
    · exact .inl tight
    · exact .inr member

/-- A job on top of the stack either keeps its height, which is tight, or gets a lower one. -/
lemma Loosening.loosen {others : List Nat}
    (now : Loosening F net side before t changed (v :: others))
    (ok : Relaxable safe F net side before) :
    (t.loosen F.durations net side v).AnswersIf safe fun r =>
      (r = none ∧ IsTight (net.Leads side) (F.floor side) (F.heights side t.value) v) ∨
      ∃ bound, ∃ hv : v < t.value.size, r = some { t with value := t.value.set v bound hv } ∧
        F.height side v bound < F.heights side t.value v ∧
        IsGreatest (demands (net.Leads side) (F.floor side) (F.heights side t.value) v)
          (F.height side v bound) := by
  have hv : v < F.size := now.stack_lt v List.mem_cons_self
  have hv' : v < t.value.size := lt_of_lt_of_eq hv now.size.symm
  unfold BoundTable.loosen
  refine (now.required ok hv).bind fun bound greatest => ?_
  rw [fetch_valueAt hv', ok_bind]
  by_cases lower : F.height side v bound < F.heights side t.value v
  · rw [if_pos ((F.isTighter_iff v).2 lower), store_of_lt _ hv', ok_bind]
    exact .pure (.inr ⟨bound, hv', rfl, lower, greatest⟩)
  · rw [if_neg fun tighter => lower ((F.isTighter_iff v).1 tighter)]
    refine .pure (.inl ⟨rfl, ?_⟩)
    have same : F.heights side t.value v = F.height side v bound :=
      le_antisymm (not_lt.1 lower) (now.enough v greatest.1)
    unfold IsTight
    rwa [same]

/-! ## A whole pass -/

/-- Looking at the job on top of the stack, and working off the rest. -/
lemma settleLoose_cons {durations : Array Int} {others : List Nat} :
    BoundTable.settleLoose durations net side t changed (v :: others) = (do
      match ← t.loosen durations net side v with
      | none => BoundTable.settleLoose durations net side t changed others
      | some t' => do
        let neighbours ← net.onward side v
        BoundTable.settleLoose durations net side t' (v :: changed)
          ((neighbours.map Prod.fst).reverse ++ others)) := by
  rw [BoundTable.settleLoose.eq_def]
  dsimp only
  cases t.loosen durations net side v with
  | error fault => rfl
  | ok r => cases r <;> rfl

/-- Working off the stack. -/
lemma Loosening.settle (ok : Relaxable safe F net side before) :
    ∀ {t : BoundTable} {changed stack : List Nat},
      Loosening F net side before t changed stack →
        (BoundTable.settleLoose F.durations net side t changed stack).AnswersIf safe fun r =>
          Loosening F net side before r.1 r.2 [] ∧ r.1.base = t.base ∧
            r.1.deferred = t.deferred := by
  intro t changed stack
  induction t, changed, stack using
    BoundTable.settleLoose.induct F.durations net side with
  | case1 t changed =>
    intro now
    rw [BoundTable.settleLoose.eq_def]
    exact .ok ⟨now, rfl, rfl⟩
  | case2 t changed v others fault loosened =>
    intro now
    rcases now.loosen ok with ⟨r, answer, -⟩ | ⟨notSafe, stops⟩
    · rw [answer] at loosened
      cases loosened
    · rw [stops] at loosened
      cases loosened
      rw [settleLoose_cons, stops]
      exact .inr ⟨notSafe, rfl⟩
  | case3 t changed v others loosened ih =>
    intro now
    rw [settleLoose_cons, loosened, ok_bind]
    rcases (now.loosen ok).ensures _ loosened with ⟨-, tight⟩ | ⟨bound, hv, impossible, -⟩
    · exact ih (now.skip tight)
    · cases impossible
  | case4 t changed v others t' loosened ih =>
    intro now
    have hv : v < net.numJobs := by
      rw [ok.size]
      exact now.stack_lt v List.mem_cons_self
    rw [settleLoose_cons, loosened, ok_bind]
    rcases (now.loosen ok).ensures _ loosened with ⟨impossible, -⟩ | ⟨bound, hv', same, lower, greatest⟩
    · cases impossible
    · obtain rfl := Option.some.inj same
      refine (ok.linked.onward side hv).answersIf.bind fun neighbours steps => ?_
      refine ih neighbours (now.lower ok greatest lower hv' (fun w lag arc => ?_)
        fun w member => ?_)
      · obtain ⟨a, step, -⟩ := leads_iff.1 arc
        exact List.mem_reverse.2 (List.mem_map_of_mem ((steps w a).2 step))
      · obtain ⟨⟨x, a⟩, among, rfl⟩ := List.mem_map.1 (List.mem_reverse.1 member)
        rw [← ok.size]
        exact (ok.linked.lt_of_step ((steps x a).1 among)).2

/-- If nothing is deferred, no arc demands more than the heights give. -/
lemma Settled.arcs {hidden : Nat → Int → Prop} (settled : Settled F net side hidden t)
    (nothing : t.deferred = []) (arc : net.Leads side u w lag) :
    F.heights side t.value u + lag ≤ F.heights side t.value w := by
  by_contra more
  rcases settled.remembered u w lag arc (not_le.1 more) with impossible | onStack | ⟨isDeferred, -⟩
  · exact impossible.elim
  · exact absurd onStack List.not_mem_nil
  · rw [nothing] at isDeferred
    exact absurd isDeferred List.not_mem_nil

/-- Heights that walks attain in a network with fewer arcs are no higher. -/
lemma Settled.le_of_sound {net' : Network} {value : Array Int} {hidden : Nat → Int → Prop}
    (settled : Settled F net side hidden t) (nothing : t.deferred = [])
    (sub : ∀ {u w lag}, net'.Leads side u w lag → net.Leads side u w lag)
    (sound : Sound F net' side value) (v : Nat) :
    F.heights side value v ≤ F.heights side t.value v := by
  obtain ⟨k, len, walk, same⟩ := sound.attained v
  rw [same]
  exact (walk.mono sub).le_of_arcs settled.sound.above (settled.arcs nothing)

/-- If nothing is deferred, the heights are the right ones. -/
lemma Settled.isLongest {hidden : Nat → Int → Prop} (settled : Settled F net side hidden t)
    (nothing : t.deferred = []) (v : Nat) :
    IsLongest (net.Leads side) (F.floor side) v (F.heights side t.value v) :=
  isLongest_of_arcs settled.sound.above (settled.arcs nothing) (settled.sound.attained v)

/-- A height that is not hidden is the right one, even if some jobs are deferred. -/
lemma Settled.isLongest_of_seen {hidden : Nat → Int → Prop} {range : Span}
    (settled : Settled F net side hidden t) (veil : Veil F net side range hidden)
    (seen : ¬hidden v (F.heights side t.value v)) :
    IsLongest (net.Leads side) (F.floor side) v (F.heights side t.value v) := by
  refine ⟨settled.sound.attained v, ?_⟩
  rintro _ ⟨k, len, walk, rfl⟩
  refine walk.le_of_hidden settled.sound.above (fun {u w lag} arc stale => ?_)
    (fun arc enough isHidden => veil.mono enough (veil.travels arc isHidden)) seen
  rcases settled.remembered u w lag arc stale with impossible | onStack | ⟨-, -, isHidden⟩
  · exact impossible.elim
  · exact absurd onStack List.not_mem_nil
  · exact isHidden

/-- A network with fewer arcs leaves room for all jobs as well. -/
lemma Roomy.of_sub {net' : Network} (roomy : Roomy F net) (linked : net'.Linked)
    (size : net'.numJobs = net.numJobs)
    (sub : ∀ {u w lag}, net'.HasArc u w lag → net.HasArc u w lag) : Roomy F net' where
  linked := linked
  size := size.trans roomy.size
  acyclic := roomy.acyclic.mono sub
  nonneg arc := roomy.nonneg (sub arc)
  room walk := roomy.room (walk.mono sub)

/-- What relaxing does to the bounds of a side. -/
structure Relaxed (F : Frame) (net : Network) (side : Side) (t t' : BoundTable)
    (changed : List Nat) : Prop where
  settled : ∀ hidden, Settled F net side hidden t'
  nothing : t'.deferred = []
  base : t'.base = t.base
  moved : ∀ v, valueAt t'.value v ≠ valueAt t.value v → v ∈ changed
  changed_lt : ∀ v ∈ changed, v < F.size

/-- What bounds need that are settled for a network with more arcs. -/
lemma Settled.relaxable {net' : Network} {hidden : Nat → Int → Prop} {t : BoundTable}
    (settled : Settled F net side hidden t) (roomy : Roomy F net) (fits : Fits F net F.deadlines)
    (linked : net'.Linked) (size : net'.numJobs = net.numJobs)
    (sub : ∀ {u w lag}, net'.HasArc u w lag → net.HasArc u w lag) :
    Relaxable safe F net' side t.value := by
  have roomy' := roomy.of_sub linked size sub
  have sub' : ∀ {u w lag}, net'.Leads side u w lag → net.Leads side u w lag := by
    cases side with
    | early => exact sub
    | late => exact sub
  have fits' : Fits F net' F.deadlines := fun arc => fits (sub arc)
  have carries : Carries F net' side (F.heights side t.value) :=
    fits'.carries linked roomy'.size roomy'.nonneg (settled.sound.below roomy)
      fun arc => settled.sound.below_of_leads roomy (sub' arc)
  exact ⟨linked, roomy'.size, roomy'.acyclic, fun _ {_} enough le {u _ _} arc =>
    carries arc (enough.above u) (le u)⟩

/-- Settled bounds with nothing deferred are enough. -/
lemma Settled.enough {hidden : Nat → Int → Prop} {t : BoundTable}
    (settled : Settled F net side hidden t) (nothing : t.deferred = []) :
    Enough F net side (F.heights side t.value) := by
  rintro v y (rfl | ⟨u, lag, arc, rfl⟩)
  · exact settled.sound.above v
  · exact settled.arcs nothing arc

/-- Bounds that are settled for a network are right for a network with fewer arcs, except where an arc
is gone. -/
lemma Settled.loosening {net' : Network} {hidden : Nat → Int → Prop} {t : BoundTable}
    {refs : List ArcRef} {seeds : List Nat} (settled : Settled F net side hidden t)
    (nothing : t.deferred = []) (linked : net.Linked) (jobs : net.numJobs = F.size)
    (deletable : ∀ ref ∈ refs, net.Deletable ref) (deleted : net.Deleted refs net')
    (ends : net.Ends refs side seeds) :
    Loosening F net' side t.value t [] seeds.reverse := by
  refine ⟨settled.limit, settled.sound.size, fun v => Int.le_refl _,
    fun v => demands_sub deleted.leads (settled.enough nothing v), fun v => ?_,
    fun v differs => absurd rfl differs,
    fun v member => jobs ▸ ends.lt linked v (List.mem_reverse.1 member),
    fun v member => absurd member List.not_mem_nil⟩
  · have tight := isTight_of_longest (D := fun _ => True) (fun _ _ => trivial)
      (fun v _ => settled.isLongest nothing v) (v := v) trivial
    rcases tight.1 with same | ⟨u, lag, arc, same⟩
    · exact .inl ⟨.inl same, demands_sub deleted.leads tight.2⟩
    · by_cases still : net'.Leads side u v lag
      · exact .inl ⟨.inr ⟨u, lag, still, same⟩, demands_sub deleted.leads tight.2⟩
      · exact .inr (List.mem_reverse.2 (ends.mem_of_gone deletable deleted arc still))

/-- Settled bounds with nothing deferred are the ones that are required, unless these leave the range of
times. -/
lemma Settled.required_answersIf {hidden : Nat → Int → Prop} {t : BoundTable}
    (settled : Settled F net side hidden t) (nothing : t.deferred = []) (linked : net.Linked)
    (jobs : net.numJobs = F.size) (crosses : safe → ∀ {u w lag}, net.Leads side u w lag →
      Crosses F side u w lag (F.heights side t.value u)) (hv : v < F.size) :
    (t.required F.durations net side v).AnswersIf safe fun r => r = valueAt t.value v := by
  refine (Leveling.required_answersIf linked jobs settled.limit settled.sound.size crosses hv).imp
    fun r greatest => ?_
  have tight := isTight_of_longest (D := fun _ => True) (fun _ _ => trivial)
    (fun v _ => settled.isLongest nothing v) (v := v) trivial
  have same : F.heights side t.value v = F.height side v r := tight.unique greatest
  have required : F.boundOf side v (F.height side v r) = r := Frame.boundOf_height
  have stored : F.boundOf side v (F.heights side t.value v) = valueAt t.value v :=
    Frame.boundOf_height
  rw [← required, ← same, stored]

/-- Settled bounds with nothing deferred are the ones that are required. -/
lemma Settled.required {hidden : Nat → Int → Prop} {t : BoundTable}
    (settled : Settled F net side hidden t) (nothing : t.deferred = []) (roomy : Roomy F net)
    (fits : Fits F net F.deadlines) (hv : v < F.size) :
    t.required F.durations net side v = .ok (valueAt t.value v) := by
  have ok : Relaxable True F net side t.value :=
    settled.relaxable roomy fits roomy.linked rfl fun arc => arc
  obtain ⟨r, answer, rfl⟩ := (settled.required_answersIf nothing ok.linked ok.size
    (fun isSafe => ok.crosses isSafe (settled.enough nothing) fun _ => Int.le_refl _) hv).answers
      trivial
  exact answer

/-- After arcs were deleted, relaxing from their ends on answers with settled bounds, unless it leaves the
range of times. -/
lemma relax_answers {net' : Network} {b : Bounds} {refs : List ArcRef} {seeds : List Nat}
    {hidden : Nat → Int → Prop} (durations : b.durations = F.durations)
    (settled : Settled F net side hidden (b.table side)) (nothing : (b.table side).deferred = [])
    (ok : Relaxable safe F net' side (b.table side).value) (linked : net.Linked)
    (deletable : ∀ ref ∈ refs, net.Deletable ref) (deleted : net.Deleted refs net')
    (ends : net.Ends refs side seeds) :
    (b.relax net' side seeds).AnswersIf safe fun r => ∃ t', r.1 = b.withTable side t' ∧
      Relaxed F net' side (b.table side) t' r.2 := by
  have start := settled.loosening nothing linked (deleted.numJobs.symm.trans ok.size) deletable deleted
    ends
  unfold Bounds.relax
  rw [durations]
  refine (start.settle ok).bind fun r ⟨now, base, deferred⟩ => .pure ⟨r.1, rfl, ?_⟩
  have tight : ∀ v, IsTight (net'.Leads side) (F.floor side) (F.heights side r.1.value) v := by
    intro v
    rcases now.tight v with tight | onStack
    · exact tight
    · exact absurd onStack List.not_mem_nil
  have inside : ∀ {u w lag}, net'.Leads side u w lag → u < F.size := fun arc =>
    ok.size ▸ (ok.linked.lt_of_leads arc).1
  refine ⟨fun hidden' => ⟨now.limit, ⟨now.size, now.enough.above, fun v => ?_⟩,
    fun u w lag arc stale => ?_, ?_⟩, deferred.trans nothing, base, ?_, ?_⟩
  · exact (acyclic_leads ok.acyclic side).attained_of_tight (D := fun _ => True) inside
      (fun _ _ => trivial) (fun v _ => tight v) trivial
  · exact absurd ((tight w).le arc) (not_le.2 stale)
  · rw [deferred, nothing]
    exact fun v member => absurd member List.not_mem_nil
  · exact fun v differs => List.mem_reverse.2 (now.moved v differs)
  · exact fun v member => now.changed_lt v (List.mem_reverse.1 member)

end Leveling
