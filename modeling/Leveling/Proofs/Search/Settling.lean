import Leveling.Proofs.Search.Worklists

/-!
# The bounds of a deletion search settle

A deletion search computes bounds without the marked arcs, and for the jobs that it has visited
only.  It starts from bounds that belong to an instance, so they can be measured as heights: the tightest
bound that is implied for a job is the one whose height is demanded of it.  In the end each visited job
either has exactly the height that is demanded of it, or nothing has changed at it or at the jobs in front
of it.

None of this depends on how large the numbers are, except that a search stops if a bound leaves the
range of times.  It is *safe* from that if all bounds that it may meet lie between their floors and
heights that leave enough room.
-/

namespace Leveling

open Checked Network

namespace DeletionSearch

variable {F : Frame} {net net' : Network} {b : Bounds} {side : Side} {top : Nat → Int}
  {safe : Prop} {s s' : DeletionSearch} {u v w n : Nat} {lag : Int}

/-! ## Heights in a search -/

/-- Enough room for a search to be safe: the bounds that it starts from lie between their floors and the
heights `top`, and the arithmetic answers there. -/
structure Room (F : Frame) (net : Network) (b : Bounds) (side : Side) (top : Nat → Int) : Prop where
  base_above : ∀ v, F.floor side v ≤ F.heights side (b.table side).base v
  base_le : ∀ v, F.heights side (b.table side).base v ≤ top v
  value_above : ∀ v, F.floor side v ≤ F.heights side (b.table side).value v
  value_le : ∀ v, F.heights side (b.table side).value v ≤ top v
  arcs : ∀ {u w lag}, net.Leads side u w lag → top u + lag ≤ top w
  carries : Carries F net side top
  spread : ∀ v, top v - F.floor side v ≤ greatestTime

/-- What a deletion search relies on, and what it relies on if it is to be safe. -/
structure Ground (safe : Prop) (F : Frame) (net : Network) (b : Bounds) (side : Side)
    (top : Nat → Int) : Prop where
  linked : net.Linked
  size : net.numJobs = F.size
  acyclic : Acyclic net.HasArc
  durations : b.durations = F.durations
  base_size : (b.table side).base.size = F.size
  value_size : (b.table side).value.size = F.size
  room : safe → Room F net b side top

/-- Flags play no part in what a search relies on. -/
lemma Ground.alike (ground : Ground safe F net b side top) (alike : Alike net net') :
    Ground safe F net' b side top where
  linked := alike.linked ground.linked
  size := alike.numJobs.trans ground.size
  acyclic := alike.hasArc ▸ ground.acyclic
  durations := ground.durations
  base_size := ground.base_size
  value_size := ground.value_size
  room isSafe := by
    have room := ground.room isSafe
    refine ⟨room.base_above, room.base_le, room.value_above, room.value_le, fun {u w lag} arc => ?_,
      fun {u w lag} arc => ?_, room.spread⟩
    · rw [alike.leads] at arc
      exact room.arcs arc
    · rw [alike.leads] at arc
      exact room.carries arc

/-- The height of a job in the search. -/
def heightIn (F : Frame) (b : Bounds) (side : Side) (s : DeletionSearch) (v : Nat) : Int :=
  F.height side v (s.boundIn b side v)

/-- The bounds of the visited jobs lie between their floors and `top`. -/
def Within (F : Frame) (side : Side) (top : Nat → Int) (s : DeletionSearch) : Prop :=
  ∀ v, Visited s.visited v →
    F.floor side v ≤ F.heights side s.current v ∧ F.heights side s.current v ≤ top v

/-- The height of a visited job. -/
lemma heightIn_of_visited (known : Visited s.visited v) :
    s.heightIn F b side v = F.heights side s.current v := by
  unfold heightIn boundIn
  rw [if_pos known]
  rfl

/-- All heights of the search lie between their floors and `top`. -/
lemma Within.mem (within : s.Within F side top) (room : Room F net b side top) (v : Nat) :
    F.floor side v ≤ s.heightIn F b side v ∧ s.heightIn F b side v ≤ top v := by
  by_cases known : Visited s.visited v
  · rw [heightIn_of_visited known]
    exact within v known
  · unfold heightIn boundIn
    rw [if_neg known]
    exact ⟨room.value_above v, room.value_le v⟩

/-! ## What is demanded -/

/-- What is demanded of a job without the marked arcs. -/
def Demanded (F : Frame) (net : Network) (b : Bounds) (side : Side) (s : DeletionSearch)
    (v : Nat) : Set Int :=
  demands (net.Unmarked side) (F.heights side (b.table side).base) (s.heightIn F b side) v

/-- What is demanded of a job lies between its floor and `top`. -/
lemma Within.mem_of_greatest (within : s.Within F side top) (room : Room F net b side top)
    {r : Int} (greatest : IsGreatest (s.Demanded F net b side v) r) :
    F.floor side v ≤ r ∧ r ≤ top v := by
  have lower := greatest.2 (.inl rfl)
  have floor := room.base_above v
  refine ⟨floor.trans lower, ?_⟩
  rcases greatest.1 with same | ⟨u, lag, arc, same⟩
  · rw [same]
    exact room.base_le v
  · have before := (within.mem room u).2
    have after := room.arcs arc.leads
    omega

/-- What a search relies on is what it needs to come to an end. -/
lemma Ground.explorable (ground : Ground safe F net b side top) : Explorable net b side where
  linked := ground.linked
  acyclic := ground.acyclic
  durations := by
    rw [ground.durations, ground.size]
    rfl
  base := ground.base_size.trans ground.size.symm
  value := ground.value_size.trans ground.size.symm

/-- The height of the bound that a job gets over an arc. -/
lemma height_reach (F : Frame) (side : Side) (u : Nat) (bound lag : Int) (w : Nat) :
    F.height side w (side.reach F.durations u bound lag w) = F.height side u bound + lag := by
  cases side with
  | early => rfl
  | late =>
    dsimp only [Frame.height, Side.reach]
    omega

/-- The bound of the height that a job gets over an arc. -/
lemma boundOf_height_add (F : Frame) (side : Side) (u : Nat) (bound lag : Int) (w : Nat) :
    F.boundOf side w (F.height side u bound + lag) = side.reach F.durations u bound lag w := by
  rw [← height_reach, Frame.boundOf_height]

/-- The tightest one of some bounds of a job is the one with the greatest height. -/
lemma isTightest_iff {bounds : Set Int} {x : Int} : side.IsTightest bounds x ↔
    IsGreatest (F.height side v '' bounds) (F.height side v x) := by
  cases side with
  | early =>
    rw [show F.height .early v '' bounds = bounds from Set.image_id bounds]
    rfl
  | late =>
    have lower : F.height .late v x ∈ F.height .late v '' bounds ↔ x ∈ bounds := by
      refine ⟨?_, Set.mem_image_of_mem _⟩
      rintro ⟨y, member, same⟩
      dsimp only [Frame.height] at same
      rwa [show x = y by omega]
    refine and_congr lower.symm ?_
    rw [mem_upperBounds, Set.forall_mem_image]
    refine forall₂_congr fun y _ => ?_
    dsimp only [Frame.height]
    omega

/-- The heights of the bounds that are implied for a job are demanded of it. -/
lemma image_impliedBounds (durations : b.durations = F.durations) :
    F.height side v '' s.impliedBounds net b side v = s.Demanded F net b side v := by
  ext y
  constructor
  · rintro ⟨bound, rfl | ⟨u, lag, arc, rfl⟩, rfl⟩
    · exact .inl rfl
    · rw [durations, height_reach]
      exact .inr ⟨u, lag, arc, rfl⟩
  · rintro (rfl | ⟨u, lag, arc, rfl⟩)
    · exact ⟨_, .inl rfl, rfl⟩
    · refine ⟨_, .inr ⟨u, lag, arc, rfl⟩, ?_⟩
      rw [durations, height_reach]
      rfl

/-- A search of an instance is sheltered as long as its bounds lie between their floors and `top`. -/
lemma Ground.sheltered (ground : Ground safe F net b side top) :
    Sheltered safe net b side (Within F side top) where
  reaches isSafe {s} within {u w lag} arc := by
    have room := ground.room isSafe
    have inside := within.mem room u
    obtain ⟨origin, carry⟩ := room.carries arc.leads inside.1 inside.2
    rw [show F.boundOf side u (s.heightIn F b side u) = s.boundIn b side u from Frame.boundOf_height]
      at origin
    rw [ground.durations, origin, ok_bind, carry]
    exact congrArg Except.ok (boundOf_height_add F side u _ lag w)
  stores isSafe {s} within {v bound} hv known tightest := by
    rw [isTightest_iff (F := F), image_impliedBounds ground.durations] at tightest
    intro x visited
    dsimp only
    rw [heights_set]
    split
    · rename_i here
      subst here
      exact within.mem_of_greatest (ground.room isSafe) tightest
    · exact within x visited

/-! ## Settling -/

/-- The height of the job is the one that is demanded of it. -/
def UpToDate (F : Frame) (net : Network) (b : Bounds) (side : Side) (s : DeletionSearch)
    (v : Nat) : Prop :=
  IsTight (net.Unmarked side) (F.heights side (b.table side).base) (s.heightIn F b side) v

/-- Nothing has changed at the job and in front of it. -/
structure Undisturbed (F : Frame) (net : Network) (b : Bounds) (side : Side)
    (s s' : DeletionSearch) (v : Nat) : Prop where
  height : s'.heightIn F b side v = s.heightIn F b side v
  before : ∀ {u lag}, net.Unmarked side u v lag → s'.heightIn F b side u = s.heightIn F b side u

/-- A visited job that has the bound that is implied for it is up to date. -/
lemma IsImplied.upToDate (durations : b.durations = F.durations) (known : Visited s.visited v)
    (implied : s.IsImplied net b side v) : s.UpToDate F net b side v := by
  unfold IsImplied at implied
  rw [isTightest_iff (F := F), image_impliedBounds durations] at implied
  unfold UpToDate IsTight
  rw [heightIn_of_visited known]
  exact implied

/-- What is known after the waiting jobs were looked at. -/
structure SettledFrom (safe : Prop) (F : Frame) (net : Network) (b : Bounds) (side : Side)
    (top : Nat → Int) (s : DeletionSearch) (waiting : List Nat) (s' : DeletionSearch) : Prop where
  same : s' = { s with current := s'.current }
  size : s'.current.size = F.size
  within : safe → s'.Within F side top
  settled : ∀ v, Visited s.visited v →
    s'.UpToDate F net b side v ∨ v ∉ waiting ∧ Undisturbed F net b side s s' v

/-- The jobs that were looked at are up to date, and the others are undisturbed. -/
lemma LookedAt.settledFrom {waiting looked : List Nat} (h : LookedAt net b side s waiting s' looked)
    (durations : b.durations = F.durations) (sized : s.Sized F.size)
    (within : safe → s'.Within F side top) : SettledFrom safe F net b side top s waiting s' := by
  have visited : s'.visited = s.visited := by rw [h.same]
  refine ⟨h.same, h.size.trans sized.current, within, fun v known => ?_⟩
  by_cases wasLooked : v ∈ looked
  · exact .inl ((h.implied v wasLooked).2.upToDate durations (visited ▸ known))
  · have untouched := h.others v known wasLooked
    exact .inr ⟨fun member => wasLooked (h.waiting v member), congrArg _ untouched.own,
      fun arc => congrArg _ (untouched.before arc)⟩

/-- A visited job and all visited jobs that depend on it are looked at. -/
lemma update_answers (ground : Ground safe F net b side top) (sized : s.Sized F.size)
    (within : safe → s.Within F side top) (known : Visited s.visited v) :
    (s.update net b side v).AnswersIf safe (SettledFrom safe F net b side top s [v]) := by
  have paid : ([v].map (net.allowance side)).sum ≤ net.walkBound := by
    rw [List.map_singleton, List.sum_singleton]
    exact net.allowance_le side v
  have listing := settleListing_answersIf ground.explorable ground.sheltered
    (ground.size.symm ▸ sized) within (fun x member => by rwa [List.mem_singleton.1 member]) paid
  refine (settleListing_matches.answersIf listing).imp ?_
  rintro _ ⟨r, ⟨lookedAt, within', -⟩, rfl⟩
  exact lookedAt.settledFrom ground.durations sized within'

end DeletionSearch

end Leveling
