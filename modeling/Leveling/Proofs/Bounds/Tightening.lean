import Leveling.Proofs.Bounds.Heights
import Leveling.Proofs.Network.Arcs

/-!
# Tightening

A pass of tightening keeps three things.  The heights stay above their floors, each of them is
attained by a walk, and whenever an arc is *stale*, that is, demands more of its end than the
height there, the job at its beginning is remembered: it is on the stack, or it is deferred.

A deferred job may be remembered for good reason only.  What the reason is depends on how much
the caller knows about the lags and the range, and is given as a *veil*: a set of heights that
contains those beyond the range, goes upwards, and is not left along an arc.  With the heights
beyond the range themselves as the veil, a stale arc that is deferred has both ends beyond the
range, so the heights inside the range are right.
-/

namespace Leveling

open Checked Network

variable {F : Frame} {net : Network} {side : Side} {value value' : Array Int} {u v w : Nat}
  {lag : Int}

/-- The network of a frame whose arcs leave room for all jobs. -/
structure Roomy (F : Frame) (net : Network) : Prop where
  linked : net.Linked
  size : net.numJobs = F.size
  acyclic : Acyclic net.HasArc
  nonneg : ∀ {u w lag}, net.HasArc u w lag → 0 ≤ lag
  /-- What a chain of arcs demands fits in between a release and a deadline. -/
  room : ∀ {k v len}, Walk net.HasArc k v len →
    valueAt F.releases k + len + valueAt F.durations v ≤ valueAt F.deadlines v

/-- The heights above their floors that are attained by walks. -/
structure Sound (F : Frame) (net : Network) (side : Side) (value : Array Int) : Prop where
  size : value.size = F.size
  above : ∀ v, F.floor side v ≤ F.heights side value v
  attained : ∀ v, Attained (net.Leads side) (F.floor side) (F.heights side value) v

/-- What the latest finishes demand over the arcs is in the range of times. -/
def Fits (F : Frame) (net : Network) (value : Array Int) : Prop :=
  ∀ {u w lag}, net.Leads .late u w lag →
    F.boundOf .late w (F.heights .late value u + lag) ≤ greatestTime

/-- On both sides the lags are not negative. -/
lemma Roomy.nonneg_leads (roomy : Roomy F net) (arc : net.Leads side u w lag) : 0 ≤ lag := by
  cases side with
  | early => exact roomy.nonneg arc
  | late => exact roomy.nonneg arc

/-- On both sides a walk that starts at a floor ends below the ceiling. -/
lemma Roomy.walk_le (roomy : Roomy F net) {k : Nat} {len : Int}
    (walk : Walk (net.Leads side) k v len) : F.floor side k + len ≤ F.ceiling side v := by
  cases side with
  | early =>
    have := roomy.room walk
    dsimp only [Frame.floor, Frame.height, Frame.limit, Frame.ceiling]
    omega
  | late =>
    have := roomy.room (walk_reversed.1 walk)
    dsimp only [Frame.floor, Frame.height, Frame.limit, Frame.ceiling]
    omega

/-- Sound heights are below the ceilings. -/
lemma Sound.below (sound : Sound F net side value) (roomy : Roomy F net) (v : Nat) :
    F.heights side value v ≤ F.ceiling side v := by
  obtain ⟨k, len, walk, same⟩ := sound.attained v
  rw [same]
  exact roomy.walk_le walk

/-- What an arc demands of its end is below the ceiling. -/
lemma Sound.below_of_leads (sound : Sound F net side value) (roomy : Roomy F net)
    (arc : net.Leads side u w lag) : F.heights side value u + lag ≤ F.ceiling side w := by
  obtain ⟨k, len, walk, same⟩ := sound.attained u
  rw [same, Int.add_assoc]
  exact roomy.walk_le (walk.snoc arc)

/-- When the heights rise, the demands stay in the range of times. -/
lemma Fits.rise (fits : side = .late → Fits F net value)
    (rise : ∀ v, F.heights side value v ≤ F.heights side value' v) :
    side = .late → Fits F net value' := by
  rintro rfl u w lag arc
  have before := fits rfl arc
  have more := rise u
  dsimp only [Frame.boundOf] at before ⊢
  omega

/-- The start that the bound of a job stands for. -/
lemma Sound.origin (sound : Sound F net side value) (roomy : Roomy F net) (hv : v < F.size) :
    side.origin F.durations v (valueAt value v) =
      .ok (side.startOf (F.heights side value v)) :=
  Frame.origin_eq hv (sound.above v) (sound.below roomy v)

/-- What an arc demands is in the range of times on both sides. -/
lemma Sound.fits (sound : Sound F net side value) (roomy : Roomy F net)
    (fits : side = .late → Fits F net value) (arc : net.Leads side u w lag) :
    F.boundOf side w (F.heights side value u + lag) ≤ greatestTime := by
  cases side with
  | early => exact Frame.fits_early (sound.below_of_leads roomy arc)
  | late => exact fits rfl arc

/-! ## Veils -/

/-- A set of heights of the jobs that contains those beyond a range, goes upwards, and is not left
along the arcs. -/
structure Veil (F : Frame) (net : Network) (side : Side) (range : Span)
    (hidden : Nat → Int → Prop) : Prop where
  of_beyond : ∀ {v bound}, side.isBeyond range bound = true → hidden v (F.height side v bound)
  mono : ∀ {v h h'}, h ≤ h' → hidden v h → hidden v h'
  travels : ∀ {u w lag h}, net.Leads side u w lag → hidden u h → hidden w (h + lag)

/-- All heights are a veil. -/
lemma veil_all (F : Frame) (net : Network) (side : Side) (range : Span) :
    Veil F net side range fun _ _ => True :=
  ⟨fun _ => trivial, fun _ _ => trivial, fun _ _ => trivial⟩

/-- The heights that lie beyond a range. -/
def Beyond (F : Frame) (side : Side) (range : Span) (v : Nat) (h : Int) : Prop :=
  side.isBeyond range (F.boundOf side v h) = true

/-- If no lag is shorter than the duration of its source, the heights beyond a range are a veil. -/
lemma veil_beyond (range : Span) (nonneg : ∀ {u w lag}, net.HasArc u w lag → 0 ≤ lag)
    (lags : ∀ {u w lag}, net.HasArc u w lag → valueAt F.durations u ≤ lag) :
    Veil F net side range (Beyond F side range) where
  of_beyond beyond := by
    unfold Beyond
    rwa [Frame.boundOf_height]
  mono {v h h'} le beyond := by
    unfold Beyond at *
    refine Frame.isBeyond_mono (F := F) (v := v) ?_ beyond
    rwa [Frame.height_boundOf, Frame.height_boundOf]
  travels {u w lag h} arc beyond := by
    unfold Beyond at *
    cases side with
    | early =>
      have := nonneg arc
      simp only [Side.isBeyond, decide_eq_true_eq] at beyond ⊢
      dsimp only [Frame.boundOf] at beyond ⊢
      omega
    | late =>
      have := lags arc
      have := F.duration_nonneg u
      simp only [Side.isBeyond, decide_eq_true_eq] at beyond ⊢
      dsimp only [Frame.boundOf] at beyond ⊢
      omega

/-! ## Stale arcs -/

/-- Each arc that demands more of its end than the height there is waived, or starts at a job that
is on the stack, or at one that is deferred and hidden, and so is its end. -/
def Remembered (net : Network) (side : Side) (hidden : Nat → Int → Prop)
    (waived : Nat → Nat → Int → Prop) (h : Nat → Int) (stack deferred : List Nat) : Prop :=
  ∀ u w lag, net.Leads side u w lag → h w < h u + lag →
    waived u w lag ∨ u ∈ stack ∨ (u ∈ deferred ∧ hidden u (h u) ∧ hidden w (h w))

/-- No arc is waived. -/
def noArc (_ _ : Nat) (_ : Int) : Prop := False

/-- The arcs from `v` over the listed neighbours are waived. -/
def arcsTo (v : Nat) (neighbours : List (Nat × Arc)) (u w : Nat) (lag : Int) : Prop :=
  u = v ∧ ∃ a, (w, a) ∈ neighbours ∧ a.lag = lag

/-- What holds during a pass that started with the bounds `before`. -/
structure Underway (F : Frame) (net : Network) (p : Pass) (hidden : Nat → Int → Prop)
    (before : Array Int) (waived : Nat → Nat → Int → Prop) (s : PassState) : Prop where
  sound : Sound F net p.side s.value
  remembered :
    Remembered net p.side hidden waived (F.heights p.side s.value) s.stack s.deferred
  rise : ∀ v, F.heights p.side before v ≤ F.heights p.side s.value v
  moved : ∀ v, valueAt s.value v ≠ valueAt before v → v ∈ s.changed
  stack_lt : ∀ v ∈ s.stack, v < F.size
  deferred_lt : ∀ v ∈ s.deferred, v < F.size
  changed_lt : ∀ v ∈ s.changed, v < F.size
  complete : p.complete = true → s.deferred = []

/-- The heights after one bound was replaced. -/
lemma heights_set (hw : w < value.size) (x : Int) (v : Nat) :
    F.heights side (value.set w x hw) v =
      if v = w then F.height side w x else F.heights side value v := by
  unfold Frame.heights
  rw [valueAt_set]
  by_cases same : v = w
  · rw [if_pos same, if_pos same, same]
  · rw [if_neg same, if_neg same]

/-- A higher height at the end of an arc is attained over the arc. -/
lemma Sound.set (sound : Sound F net side value) (arc : net.Leads side v w lag)
    (higher : F.heights side value w < F.heights side value v + lag) (hw : w < value.size) :
    Sound F net side (value.set w (F.boundOf side w (F.heights side value v + lag)) hw) where
  size := by rw [Array.size_set, sound.size]
  above u := by
    rw [heights_set]
    split
    · rename_i here
      subst here
      rw [Frame.height_boundOf]
      exact (sound.above u).trans (Int.le_of_lt higher)
    · exact sound.above u
  attained u := by
    unfold Attained
    rw [heights_set]
    split
    · rename_i here
      subst here
      obtain ⟨k, len, walk, same⟩ := sound.attained v
      refine ⟨k, len + lag, walk.snoc arc, ?_⟩
      rw [Frame.height_boundOf, same, Int.add_assoc]
    · exact sound.attained u

/-! ## A step of a pass -/

/-- The pass works on the durations and the limits of the frame. -/
structure Pass.Suits (p : Pass) (F : Frame) : Prop where
  durations : p.durations = F.durations
  opposite : p.opposite = F.limit p.side.opposite

variable {p : Pass} {hidden : Nat → Int → Prop} {before : Array Int} {s : PassState}
  {rest : List (Nat × Arc)} {a : Arc}

/-- An arc that demands nothing more need not be waived any more. -/
lemma Underway.skip (now : Underway F net p hidden before (arcsTo v ((w, a) :: rest)) s)
    (enough : F.heights p.side s.value v + a.lag ≤ F.heights p.side s.value w) :
    Underway F net p hidden before (arcsTo v rest) s := by
  refine { now with remembered := fun x y lag arc stale => ?_ }
  rcases now.remembered x y lag arc stale with ⟨rfl, b, member, rfl⟩ | other
  · rcases List.mem_cons.1 member with same | member
    · obtain ⟨rfl, rfl⟩ := Prod.mk.inj same
      omega
    · exact .inl ⟨rfl, b, member, rfl⟩
  · exact .inr other

/-- The two ways to remember a job whose bound has changed. -/
lemma record_cases (p : Pass) (s : PassState) (value : Array Int) (w : Nat) (old : Int) :
    (p.record s value w old =
        { s with value, changed := w :: s.changed, stack := w :: s.stack }) ∨
      (p.complete = false ∧ p.side.isBeyond p.range old = true ∧
        p.record s value w old =
          { s with value, changed := w :: s.changed, deferred := w :: s.deferred }) := by
  unfold Pass.record
  split
  · rename_i both
    rw [Bool.and_eq_true, Bool.not_eq_true'] at both
    exact .inr ⟨both.1, both.2, rfl⟩
  · exact .inl rfl

/-- Either way the bounds are the new ones. -/
lemma record_value (p : Pass) (s : PassState) (value : Array Int) (w : Nat) (old : Int) :
    (p.record s value w old).value = value := by
  rcases record_cases p s value w old with same | ⟨-, -, same⟩ <;> rw [same]

/-- After the height at the end of an arc has been raised to what the arc demands, all stale arcs are
remembered again. -/
lemma Remembered.raise {h h' : Nat → Int} {stack stack' deferred deferred' : List Nat} {range : Span}
    (remembered : Remembered net side hidden (arcsTo v ((w, a) :: rest)) h stack deferred)
    (veil : Veil F net side range hidden) (acyclic : Acyclic net.HasArc)
    (arc : net.Leads side v w a.lag) (higher : h w < h v + a.lag)
    (raised : ∀ x, h' x = if x = w then h v + a.lag else h x) (stack_sub : stack ⊆ stack')
    (deferred_sub : deferred ⊆ deferred') (recorded : w ∈ stack' ∨ w ∈ deferred' ∧ hidden w (h w)) :
    Remembered net side hidden (arcsTo v rest) h' stack' deferred' := by
  have acyclic := acyclic_leads acyclic side
  have rise : ∀ x, h x ≤ h' x := by
    intro x
    rw [raised]
    split
    · rename_i here
      subst here
      exact Int.le_of_lt higher
    · exact Int.le_refl _
  have same : ∀ {x}, x ≠ w → h' x = h x := fun other => by rw [raised, if_neg other]
  intro x y lag arc' stale
  by_cases here : x = w
  · -- an arc that starts where the height was raised
    subst here
    rw [same (acyclic.ne arc').symm] at stale ⊢
    rcases recorded with onStack | ⟨isDeferred, wasHidden⟩
    · exact .inr (.inl onStack)
    · by_cases before : h y < h x + lag
      · rcases remembered x y lag arc' before with ⟨rfl, -⟩ | onStack | ⟨isDeferred, hx, hy⟩
        · exact absurd rfl (acyclic.ne arc)
        · exact .inr (.inl (stack_sub onStack))
        · exact .inr (.inr ⟨deferred_sub isDeferred, veil.mono (rise x) hx, hy⟩)
      · -- the arc was not stale before, so its end is as hidden as its beginning
        refine .inr (.inr ⟨isDeferred, veil.mono (rise x) wasHidden, ?_⟩)
        exact veil.mono (not_lt.1 before) (veil.travels arc' wasHidden)
  · rw [same here] at stale ⊢
    have before : h y < h x + lag := lt_of_le_of_lt (rise y) stale
    rcases remembered x y lag arc' before with ⟨rfl, b, member, rfl⟩ | onStack | ⟨isDeferred, hx, hy⟩
    · rcases List.mem_cons.1 member with first | member
      · obtain ⟨rfl, rfl⟩ := Prod.mk.inj first
        rw [raised, if_pos rfl] at stale
        exact absurd stale (lt_irrefl _)
      · exact .inl ⟨rfl, b, member, rfl⟩
    · exact .inr (.inl (stack_sub onStack))
    · exact .inr (.inr ⟨deferred_sub isDeferred, hx, veil.mono (rise y) hy⟩)

/-- Raising the bound at the end of an arc to what the arc demands. -/
lemma Underway.raise (now : Underway F net p hidden before (arcsTo v ((w, a) :: rest)) s)
    (veil : Veil F net p.side p.range hidden) (roomy : Roomy F net)
    (arc : net.Leads p.side v w a.lag)
    (higher : F.heights p.side s.value w < F.heights p.side s.value v + a.lag)
    (hw : w < s.value.size) :
    Underway F net p hidden before (arcsTo v rest)
      (p.record s (s.value.set w (F.boundOf p.side w (F.heights p.side s.value v + a.lag)) hw) w
        (valueAt s.value w)) := by
  have hw' : w < F.size := lt_of_lt_of_eq hw now.sound.size
  have raised : ∀ x, F.heights p.side
      (s.value.set w (F.boundOf p.side w (F.heights p.side s.value v + a.lag)) hw) x =
        if x = w then F.heights p.side s.value v + a.lag else F.heights p.side s.value x := by
    intro x
    rw [heights_set, Frame.height_boundOf]
  have rise : ∀ x, F.heights p.side before x ≤ F.heights p.side
      (s.value.set w (F.boundOf p.side w (F.heights p.side s.value v + a.lag)) hw) x := by
    intro x
    refine (now.rise x).trans ?_
    rw [raised]
    split
    · rename_i here
      subst here
      exact Int.le_of_lt higher
    · exact Int.le_refl _
  have moved : ∀ x, valueAt (s.value.set w
      (F.boundOf p.side w (F.heights p.side s.value v + a.lag)) hw) x ≠ valueAt before x →
        x ∈ w :: s.changed := by
    intro x differs
    rw [valueAt_set] at differs
    split at differs
    · rename_i here
      subst here
      exact List.mem_cons_self
    · exact List.mem_cons_of_mem _ (now.moved x differs)
  have changed_lt : ∀ x ∈ w :: s.changed, x < F.size := by
    intro x member
    rcases List.mem_cons.1 member with rfl | member
    · exact hw'
    · exact now.changed_lt x member
  rcases record_cases p s (s.value.set w
      (F.boundOf p.side w (F.heights p.side s.value v + a.lag)) hw) w (valueAt s.value w) with
    same | ⟨incomplete, beyond, same⟩
  · rw [same]
    refine ⟨now.sound.set arc higher hw, ?_, rise, moved, ?_, now.deferred_lt, changed_lt,
      now.complete⟩
    · exact now.remembered.raise veil roomy.acyclic arc higher raised (List.subset_cons_self _ _)
        (List.Subset.refl _) (.inl List.mem_cons_self)
    · intro x member
      rcases List.mem_cons.1 member with rfl | member
      · exact hw'
      · exact now.stack_lt x member
  · rw [same]
    refine ⟨now.sound.set arc higher hw, ?_, rise, moved, now.stack_lt, ?_, changed_lt, ?_⟩
    · exact now.remembered.raise veil roomy.acyclic arc higher raised (List.Subset.refl _)
        (List.subset_cons_self _ _) (.inr ⟨List.mem_cons_self, veil.of_beyond beyond⟩)
    · intro x member
      rcases List.mem_cons.1 member with rfl | member
      · exact hw'
      · exact now.deferred_lt x member
    · intro complete
      rw [incomplete] at complete
      cases complete

section

variable (now : Underway F net p hidden before (arcsTo v ((w, a) :: rest)) s) (suits : p.Suits F)
  (roomy : Roomy F net) (step : net.Step p.side v w a)

include now suits roomy step

/-- Looking at the first neighbour of a job, if what is demanded of it is in the range of times.  The
height that matters for the other neighbours stays the same. -/
lemma Underway.next (veil : Veil F net p.side p.range hidden)
    (fits : F.boundOf p.side w (F.heights p.side s.value v + a.lag) ≤ greatestTime) :
    ∃ s', Underway F net p hidden before (arcsTo v rest) s' ∧
      F.heights p.side s'.value v = F.heights p.side s.value v ∧
      p.relax (p.side.startOf (F.heights p.side s.value v)) ((w, a) :: rest) s =
        p.relax (p.side.startOf (F.heights p.side s.value v)) rest s' := by
  have arc : net.Leads p.side v w a.lag := leads_iff.2 ⟨a, step, rfl⟩
  have hw' : w < F.size := roomy.size ▸ (roomy.linked.lt_of_step step).2
  have hw : w < s.value.size := lt_of_lt_of_eq hw' now.sound.size.symm
  have lower := now.sound.above v
  have nonneg := roomy.nonneg_leads arc
  have upper := now.sound.below_of_leads roomy arc
  rw [Pass.relax, suits.durations, Frame.carry_eq hw' lower nonneg upper fits, ok_bind,
    fetch_valueAt hw, ok_bind]
  by_cases higher : F.heights p.side s.value w < F.heights p.side s.value v + a.lag
  · have tighter : p.side.isTighter (F.boundOf p.side w (F.heights p.side s.value v + a.lag))
        (valueAt s.value w) = true := by
      rw [F.isTighter_iff w, Frame.height_boundOf]
      exact higher
    have room : p.side.checkRoom F.durations (F.limit p.side.opposite) w
        (F.boundOf p.side w (F.heights p.side s.value v + a.lag)) = .ok () := by
      refine Frame.checkRoom_eq hw' ?_ ?_
      · rw [Frame.height_boundOf]
        exact (now.sound.above w).trans (Int.le_of_lt higher)
      · rw [Frame.height_boundOf]
        exact upper
    rw [if_pos tighter, store_of_lt _ hw, ok_bind, suits.opposite, room, ok_bind]
    refine ⟨_, now.raise veil roomy arc higher hw, ?_, rfl⟩
    rw [record_value, heights_set, if_neg]
    exact (acyclic_leads roomy.acyclic p.side).ne arc
  · have loose : ¬p.side.isTighter
        (F.boundOf p.side w (F.heights p.side s.value v + a.lag)) (valueAt s.value w) = true := by
      rw [F.isTighter_iff w, Frame.height_boundOf]
      exact higher
    rw [if_neg loose]
    exact ⟨s, now.skip (not_lt.1 higher), rfl, rfl⟩

omit now in
/-- A demand that is no time overflows. -/
lemma relax_overflow
    (exceeds : greatestTime < F.boundOf p.side w (F.heights p.side s.value v + a.lag)) :
    p.relax (p.side.startOf (F.heights p.side s.value v)) ((w, a) :: rest) s = .error .overflow := by
  have hw : w < F.size := roomy.size ▸ (roomy.linked.lt_of_step step).2
  rw [Pass.relax, suits.durations,
    Frame.carry_of_not_inTime (fun inTime => not_le.2 exceeds inTime.2) hw, error_bind]

end

/-- Looking at all neighbours of a job.  This answers if what is demanded of them is in the range of
times, and overflows otherwise. -/
lemma Underway.relax (suits : p.Suits F) (veil : Veil F net p.side p.range hidden)
    (roomy : Roomy F net) {height : Int} :
    ∀ {neighbours : List (Nat × Arc)} {s : PassState},
      (∀ w a, (w, a) ∈ neighbours → net.Step p.side v w a) →
        Underway F net p hidden before (arcsTo v neighbours) s →
          F.heights p.side s.value v = height →
            ((∀ w a, (w, a) ∈ neighbours → F.boundOf p.side w (height + a.lag) ≤ greatestTime) →
              (p.relax (p.side.startOf height) neighbours s).Answers
                (Underway F net p hidden before noArc)) ∧
            ((∃ w a, (w, a) ∈ neighbours ∧ greatestTime < F.boundOf p.side w (height + a.lag)) →
              p.relax (p.side.startOf height) neighbours s = .error .overflow) := by
  intro neighbours
  induction neighbours with
  | nil =>
    intro s _ now _
    constructor
    · refine fun _ => .ok { now with remembered := fun x y lag arc stale => ?_ }
      rcases now.remembered x y lag arc stale with ⟨-, b, member, -⟩ | other
      · exact absurd member List.not_mem_nil
      · exact .inr other
    · rintro ⟨w, a, member, -⟩
      exact absurd member List.not_mem_nil
  | cons first rest ih =>
    obtain ⟨w, a⟩ := first
    intro s steps now same
    have step := steps w a List.mem_cons_self
    subst same
    by_cases fits : F.boundOf p.side w (F.heights p.side s.value v + a.lag) ≤ greatestTime
    · obtain ⟨s', now', same, continues⟩ := now.next suits roomy step veil fits
      obtain ⟨answers, overflows⟩ :=
        ih (fun w a member => steps w a (List.mem_cons_of_mem _ member)) now' same
      rw [continues]
      constructor
      · exact fun all => answers fun x b member => all x b (List.mem_cons_of_mem _ member)
      · rintro ⟨x, b, member, exceeds⟩
        rcases List.mem_cons.1 member with first | member
        · obtain ⟨rfl, rfl⟩ := Prod.mk.inj first
          exact absurd exceeds (not_lt.2 fits)
        · exact overflows ⟨x, b, member, exceeds⟩
    · exact ⟨fun all => absurd (all w a List.mem_cons_self) fits,
        fun _ => relax_overflow suits roomy step (not_le.1 fits)⟩

/-! ## A pass -/

/-- An empty stack is worked off. -/
lemma settle_nil (empty : s.stack = []) : p.settle net s = .ok s := by
  rw [Pass.settle.eq_def]
  split
  · rfl
  · rename_i stack
    rw [empty] at stack
    cases stack

/-- The job on top of the stack is looked at before the others. -/
lemma settle_cons {others : List Nat} (stack : s.stack = v :: others) :
    p.settle net s = (do
      let start ← p.side.origin p.durations v (← fetch s.value v)
      let neighbours ← net.onward p.side v
      let s' ← p.relax start neighbours { s with stack := others }
      p.settle net s') := by
  rw [Pass.settle.eq_def]
  split
  · rename_i empty
    rw [empty] at stack
    cases stack
  · rename_i top others' same
    rw [stack] at same
    obtain ⟨rfl, rfl⟩ := List.cons.inj same
    refine bind_congr fun bound => bind_congr fun start => bind_congr fun neighbours => ?_
    cases p.relax start neighbours { s with stack := others } <;> rfl

/-- The job on top leaves the stack, so its arcs have to be waived until they were looked at. -/
lemma Underway.pop {others : List Nat} {neighbours : List (Nat × Arc)}
    (now : Underway F net p hidden before noArc s) (stack : s.stack = v :: others)
    (steps : ∀ w a, (w, a) ∈ neighbours ↔ net.Step p.side v w a) :
    Underway F net p hidden before (arcsTo v neighbours) { s with stack := others } := by
  refine ⟨now.sound, fun x y lag arc stale => ?_, now.rise, now.moved,
    fun x member => now.stack_lt x (stack ▸ List.mem_cons_of_mem _ member), now.deferred_lt,
    now.changed_lt, now.complete⟩
  rcases now.remembered x y lag arc stale with impossible | onStack | isDeferred
  · exact impossible.elim
  · rw [stack] at onStack
    rcases List.mem_cons.1 onStack with rfl | onStack
    · obtain ⟨a, step, same⟩ := leads_iff.1 arc
      exact .inl ⟨rfl, a, (steps y a).2 step, same⟩
    · exact .inr (.inl onStack)
  · exact .inr (.inr isDeferred)

/-- Working off the stack. -/
lemma Underway.settle (suits : p.Suits F) (veil : Veil F net p.side p.range hidden)
    (roomy : Roomy F net) (fits : p.side = .late → Fits F net before) :
    ∀ {s : PassState}, Underway F net p hidden before noArc s →
      (p.settle net s).Answers fun s' =>
        Underway F net p hidden before noArc s' ∧ s'.stack = [] := by
  intro s
  induction s using Pass.settle.induct (p := p) with
  | case1 s empty =>
    intro now
    rw [settle_nil empty]
    exact .ok ⟨now, empty⟩
  | case2 s v others stack ih =>
    intro now
    have hv : v < F.size := now.stack_lt v (stack ▸ List.mem_cons_self)
    have hv' : v < net.numJobs := lt_of_lt_of_eq hv roomy.size.symm
    rw [settle_cons stack, fetch_valueAt (lt_of_lt_of_eq hv now.sound.size.symm), ok_bind,
      suits.durations, now.sound.origin roomy hv, ok_bind]
    refine (roomy.linked.onward p.side hv').bind fun neighbours steps => ?_
    have relaxed := (now.pop stack steps).relax suits veil roomy (fun w a => (steps w a).1) rfl
    obtain ⟨s', answer, now'⟩ := relaxed.1 fun w a member =>
      now.sound.fits roomy (Fits.rise fits now.rise) (leads_iff.2 ⟨a, (steps w a).1 member, rfl⟩)
    rw [answer, ok_bind]
    exact ih _ _ _ answer now'

/-- The stack is not worked off if what its top demands of a neighbour is no time. -/
lemma Underway.settle_overflow (suits : p.Suits F) (veil : Veil F net p.side p.range hidden)
    (roomy : Roomy F net) {others : List Nat} (now : Underway F net p hidden before noArc s)
    (stack : s.stack = v :: others) (arc : net.Leads p.side v w lag)
    (exceeds : greatestTime < F.boundOf p.side w (F.heights p.side s.value v + lag)) :
    p.settle net s = .error .overflow := by
  have hv : v < F.size := now.stack_lt v (stack ▸ List.mem_cons_self)
  obtain ⟨neighbours, listed, steps⟩ :=
    roomy.linked.onward p.side (lt_of_lt_of_eq hv roomy.size.symm)
  obtain ⟨a, step, rfl⟩ := leads_iff.1 arc
  have relaxed := (now.pop stack steps).relax suits veil roomy (fun w a => (steps w a).1) rfl
  have overflow := relaxed.2 ⟨w, a, (steps w a).2 step, exceeds⟩
  rw [settle_cons stack, fetch_valueAt (lt_of_lt_of_eq hv now.sound.size.symm), ok_bind,
    suits.durations, now.sound.origin roomy hv, ok_bind, listed, ok_bind, overflow, error_bind]

/-! ## Taking up deferred jobs -/

/-- The bounds are those of the jobs of a frame. -/
structure Bounds.Of (b : Bounds) (F : Frame) : Prop where
  durations : b.durations = F.durations
  limit : ∀ side, (b.table side).limit = F.limit side

variable {b : Bounds} {hidden' : Nat → Int → Prop} {range : Span} {seeds : List Nat} {d : Drain}

/-- A test of the entries of a list whose answers are known. -/
lemma anyM_eq_ok {β : Type} {l : List β} {f : β → Checked Bool} {g : β → Bool}
    (each : ∀ x ∈ l, f x = .ok (g x)) : l.anyM f = .ok (l.any g) := by
  induction l with
  | nil => rfl
  | cons x l ih =>
    rw [List.anyM_cons, each x List.mem_cons_self, ok_bind, List.any_cons]
    cases g x with
    | true => rfl
    | false => exact ih fun y member => each y (List.mem_cons_of_mem _ member)

/-- If a range does not touch a job, the job and its neighbours lie beyond it. -/
lemma touches_answers (linked : net.Linked) (size : net.numJobs = F.size)
    (hvalue : (b.table side).value.size = F.size) (hv : v < F.size) :
    (b.touches net side range v).Answers fun touched => touched = false →
      side.isBeyond range (valueAt (b.table side).value v) = true ∧
        ∀ w lag, net.Leads side v w lag →
          side.isBeyond range (valueAt (b.table side).value w) = true := by
  unfold Bounds.touches
  dsimp only
  rw [fetch_valueAt (lt_of_lt_of_eq hv hvalue.symm), ok_bind]
  split
  · rename_i beyond
    refine (linked.onward side (lt_of_lt_of_eq hv size.symm)).bind fun neighbours steps => ?_
    have each : ∀ x ∈ neighbours, (do
        return !side.isBeyond range (← fetch (b.table side).value x.1) : Checked Bool) =
          .ok (!side.isBeyond range (valueAt (b.table side).value x.1)) := by
      rintro ⟨w, a⟩ member
      have hw := (linked.lt_of_step ((steps w a).1 member)).2
      rw [fetch_valueAt (by rw [hvalue, ← size]; exact hw)]
      rfl
    refine ⟨_, anyM_eq_ok each, fun untouched => ⟨beyond, fun w lag arc => ?_⟩⟩
    obtain ⟨a, step, -⟩ := leads_iff.1 arc
    have := List.any_eq_false.1 untouched (w, a) ((steps w a).2 step)
    simpa using this
  · exact .pure fun impossible => absurd impossible (by decide)

/-- Each deferred job is either taken up or left, and those that are left are not touched. -/
lemma splitTouching_answers (linked : net.Linked) (size : net.numJobs = F.size)
    (hvalue : (b.table side).value.size = F.size) {deferred : List Nat}
    (inside : ∀ v ∈ deferred, v < F.size) :
    (b.splitTouching net side range deferred).Answers fun r =>
      (∀ v, v ∈ deferred ↔ v ∈ r.1 ∨ v ∈ r.2) ∧
        ∀ v ∈ r.2, side.isBeyond range (valueAt (b.table side).value v) = true ∧
          ∀ w lag, net.Leads side v w lag →
            side.isBeyond range (valueAt (b.table side).value w) = true := by
  induction deferred with
  | nil => exact .ok ⟨fun v => by simp, fun v member => absurd member List.not_mem_nil⟩
  | cons v rest ih =>
    unfold Bounds.splitTouching
    refine (ih fun w member => inside w (List.mem_cons_of_mem _ member)).bind ?_
    rintro ⟨taken, kept⟩ ⟨split, calm⟩
    refine (touches_answers linked size hvalue (inside v List.mem_cons_self)).bind ?_
    intro touched untouched
    cases touched with
    | true =>
      refine .pure ⟨fun w => ?_, calm⟩
      rw [List.mem_cons, List.mem_cons, split, or_assoc]
    | false =>
      refine .pure ⟨fun w => ?_, fun w member => ?_⟩
      · rw [List.mem_cons, List.mem_cons, split, or_left_comm]
      · rcases List.mem_cons.1 member with rfl | member
        · exact untouched rfl
        · exact calm w member

/-- After deferred jobs were taken up, the stale arcs are remembered behind the veil of the new
range. -/
lemma drain_answers (linked : net.Linked) (size : net.numJobs = F.size)
    (hvalue : (b.table side).value.size = F.size)
    (inside : ∀ v ∈ (b.table side).deferred, v < F.size)
    (remembered : Remembered net side hidden noArc (F.heights side (b.table side).value) seeds
      (b.table side).deferred)
    (veil : Veil F net side range hidden') (stays : d = .nothing → ∀ v h, hidden v h → hidden' v h) :
    (b.drain net side range d).Answers fun r =>
      Remembered net side hidden' noArc (F.heights side (b.table side).value)
          (seeds.reverse ++ r.1) r.2 ∧
        (∀ v ∈ r.1, v < F.size) ∧ (∀ v ∈ r.2, v < F.size) ∧ (d = .everything → r.2 = []) := by
  have seeded : ∀ {u taken}, u ∈ seeds → u ∈ seeds.reverse ++ taken := fun member =>
    List.mem_append_left _ (List.mem_reverse.2 member)
  cases d with
  | nothing =>
    refine .ok ⟨fun u w lag arc stale => ?_, fun v member => absurd member List.not_mem_nil, inside,
      fun impossible => by cases impossible⟩
    rcases remembered u w lag arc stale with impossible | seed | ⟨isDeferred, hu, hw⟩
    · exact impossible.elim
    · exact .inr (.inl (seeded seed))
    · exact .inr (.inr ⟨isDeferred, stays rfl _ _ hu, stays rfl _ _ hw⟩)
  | everything =>
    refine .ok ⟨fun u w lag arc stale => ?_, inside, fun v member => absurd member List.not_mem_nil,
      fun _ => rfl⟩
    rcases remembered u w lag arc stale with impossible | seed | ⟨isDeferred, -, -⟩
    · exact impossible.elim
    · exact .inr (.inl (seeded seed))
    · exact .inr (.inl (List.mem_append_right _ isDeferred))
  | touching =>
    refine (splitTouching_answers linked size hvalue inside).imp ?_
    rintro ⟨taken, kept⟩ ⟨split, calm⟩
    refine ⟨fun u w lag arc stale => ?_, fun v member => inside v ((split v).2 (.inl member)),
      fun v member => inside v ((split v).2 (.inr member)), fun impossible => by cases impossible⟩
    rcases remembered u w lag arc stale with impossible | seed | ⟨isDeferred, -, -⟩
    · exact impossible.elim
    · exact .inr (.inl (seeded seed))
    · rcases (split u).1 isDeferred with isTaken | isKept
      · exact .inr (.inl (List.mem_append_right _ isTaken))
      · obtain ⟨beyond, onward⟩ := calm u isKept
        exact .inr (.inr ⟨isKept, veil.of_beyond beyond, veil.of_beyond (onward w lag arc)⟩)

/-- The bounds of a side before a pass that starts with some seeds. -/
structure Primed (F : Frame) (net : Network) (side : Side) (hidden : Nat → Int → Prop)
    (seeds : List Nat) (t : BoundTable) : Prop where
  sound : Sound F net side t.value
  remembered : Remembered net side hidden noArc (F.heights side t.value) seeds t.deferred
  seeds_lt : ∀ v ∈ seeds, v < F.size
  deferred_lt : ∀ v ∈ t.deferred, v < F.size

/-- The bounds of a side between two passes. -/
structure Settled (F : Frame) (net : Network) (side : Side) (hidden : Nat → Int → Prop)
    (t : BoundTable) : Prop where
  limit : t.limit = F.limit side
  sound : Sound F net side t.value
  remembered : Remembered net side hidden noArc (F.heights side t.value) [] t.deferred
  deferred_lt : ∀ v ∈ t.deferred, v < F.size

/-- What a pass does to the bounds of its side. -/
structure Tightened (F : Frame) (net : Network) (side : Side) (hidden : Nat → Int → Prop)
    (d : Drain) (t t' : BoundTable) (changed : List Nat) : Prop where
  settled : Settled F net side hidden t'
  base : t'.base = t.base
  rise : ∀ v, F.heights side t.value v ≤ F.heights side t'.value v
  moved : ∀ v, valueAt t'.value v ≠ valueAt t.value v → v ∈ changed
  changed_lt : ∀ v ∈ changed, v < F.size
  drained : d = .everything → t'.deferred = []

/-- Settled bounds are ready for a pass without seeds. -/
lemma Settled.primed {t : BoundTable} (settled : Settled F net side hidden t) :
    Primed F net side hidden [] t :=
  ⟨settled.sound, settled.remembered, fun _ member => absurd member List.not_mem_nil,
    settled.deferred_lt⟩

/-- The pass that tightens the bounds of a side. -/
def Bounds.passOf (b : Bounds) (side : Side) (d : Drain) (range : Span) : Pass :=
  { side, durations := b.durations, opposite := (b.table side.opposite).limit,
    complete := d == .everything, range }

/-- Before the stack of a pass is worked off, the deferred jobs that it takes up are put on it. -/
lemma Primed.underway (roomy : Roomy F net)
    (primed : Primed F net side hidden seeds (b.table side)) (veil : Veil F net side range hidden')
    (stays : d = .nothing → ∀ v h, hidden v h → hidden' v h) :
    (b.drain net side range d).Answers fun r =>
      Underway F net (b.passOf side d range) hidden' (b.table side).value noArc
        { value := (b.table side).value, deferred := r.2, changed := [],
          stack := seeds.reverse ++ r.1 } := by
  refine (drain_answers roomy.linked roomy.size primed.sound.size primed.deferred_lt
    primed.remembered veil stays).imp ?_
  rintro ⟨taken, kept⟩ ⟨remembered, taken_lt, kept_lt, drained⟩
  refine ⟨primed.sound, remembered, fun v => Int.le_refl _, fun v differs => absurd rfl differs,
    fun v member => ?_, kept_lt, fun v member => absurd member List.not_mem_nil,
    fun complete => drained (beq_iff_eq.1 complete)⟩
  rcases List.mem_append.1 member with seed | isTaken
  · exact primed.seeds_lt v (List.mem_reverse.1 seed)
  · exact taken_lt v isTaken

/-- A pass answers with settled bounds. -/
lemma tighten_answers (of : b.Of F) (roomy : Roomy F net)
    (primed : Primed F net side hidden seeds (b.table side))
    (fits : side = .late → Fits F net (b.table side).value)
    (veil : Veil F net side range hidden') (stays : d = .nothing → ∀ v h, hidden v h → hidden' v h) :
    (b.tighten net side seeds d range).Answers fun r => ∃ t', r.1 = b.withTable side t' ∧
      Tightened F net side hidden' d (b.table side) t' r.2 := by
  have suits : (b.passOf side d range).Suits F := ⟨of.durations, of.limit _⟩
  unfold Bounds.tighten
  refine (primed.underway roomy veil stays).bind ?_
  rintro ⟨taken, kept⟩ start
  refine (start.settle suits veil roomy fits).bind fun s' ⟨now, empty⟩ => .pure ⟨_, rfl, ?_⟩
  refine ⟨⟨of.limit side, now.sound, ?_, now.deferred_lt⟩, rfl, now.rise, fun v differs => ?_,
    fun v member => now.changed_lt v (List.mem_reverse.1 member), fun complete => ?_⟩
  · have := now.remembered
    rwa [empty] at this
  · exact List.mem_reverse.2 (now.moved v differs)
  · exact now.complete (beq_iff_eq.2 complete)

/-- A pass overflows if what its last seed demands of a neighbour is no time. -/
lemma tighten_overflow (of : b.Of F) (roomy : Roomy F net)
    (primed : Primed F net side hidden (seeds ++ [v]) (b.table side))
    (veil : Veil F net side range hidden') (stays : d = .nothing → ∀ v h, hidden v h → hidden' v h)
    (arc : net.Leads side v w lag)
    (exceeds : greatestTime < F.boundOf side w (F.heights side (b.table side).value v + lag)) :
    b.tighten net side (seeds ++ [v]) d range = .error .overflow := by
  have suits : (b.passOf side d range).Suits F := ⟨of.durations, of.limit _⟩
  obtain ⟨⟨taken, kept⟩, drained, start⟩ := primed.underway roomy veil stays
  have stack : (seeds ++ [v]).reverse ++ taken = v :: (seeds.reverse ++ taken) := by
    rw [List.reverse_append]
    rfl
  have overflow := start.settle_overflow suits veil roomy stack arc exceeds
  unfold Bounds.tighten
  rw [drained, ok_bind]
  exact congrArg (fun x => x >>= _) overflow

end Leveling
