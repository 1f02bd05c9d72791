import Leveling.Proofs.Network.Lists
import Leveling.Proofs.Runs
import Mathlib.Algebra.Order.Ring.Nat
import Mathlib.Data.Prod.Lex
import Mathlib.Order.Basic

/-!
# Paired lists

The lists of outgoing arcs and the lists of their counterparts point at each other: an entry
of either family knows the place of its partner in the other one.  When arcs are deleted, the
entries that have to go lose their partners at once, and are then taken out of one family
after the other.  In between, the families are paired *except* at the places of the entries
that are still to go.

An entry that is taken out may move the last entry of its list into the vacated slot, so the
partner of the moved entry has to learn its new slot.  This step is the same for both families
and is treated once, as `unhook`.  It is right only if the moved entry still has its partner,
which is why the entries of a list have to be taken out from the highest slot down.
-/

namespace Leveling

open Network Checked

variable {β γ : Type}

/-- The lists `A` and `B` point at each other, except at the places in `D` and `X`. -/
structure PairedExcept (link : β → Place) (link' : γ → Place) (D X : List Place)
    (A : Array (Array β)) (B : Array (Array γ)) : Prop where
  forth : ∀ {p x}, entryAt A p = some x → p ∉ D →
    link x ∉ X ∧ ∃ y, entryAt B (link x) = some y ∧ link' y = p
  back : ∀ {q y}, entryAt B q = some y → q ∉ X →
    link' y ∉ D ∧ ∃ x, entryAt A (link' y) = some x ∧ link x = q

/-- Being paired is symmetric. -/
lemma PairedExcept.symm {link : β → Place} {link' : γ → Place} {D X : List Place}
    {A : Array (Array β)} {B : Array (Array γ)} (h : PairedExcept link link' D X A B) :
    PairedExcept link' link X D B A := ⟨h.back, h.forth⟩

/-- Takes the entry at a place out of `A`, and tells the partner of the entry that takes over its
slot. -/
def unhook (link : β → Place) (relink : γ → Nat → γ) (p : Place) (A : Array (Array β))
    (B : Array (Array γ)) : Checked (Array (Array β) × Array (Array γ)) := do
  let list ← fetch A p.1
  unless p.2 < list.size do throw .indexOutOfBounds
  let list := swapRemove list p.2
  let A ← store A p.1 list
  match list[p.2]? with
  | none => return (A, B)
  | some moved =>
    let B ← adjust B (link moved).1 fun list =>
      adjust list (link moved).2 fun y => .ok (relink y p.2)
    return (A, B)

/-- What taking out an entry does to the two families. -/
structure Unhooked (relink : γ → Nat → γ) (p : Place) (x : β) (A : Array (Array β))
    (B : Array (Array γ)) (A' : Array (Array β)) (B' : Array (Array γ)) : Prop where
  removed : Removed p x A A'
  size : B'.size = B.size
  entry : ∀ q, entryAt B' q = entryAt B q ∨
    ∃ y, entryAt B q = some y ∧ entryAt B' q = some (relink y p.2)
  tally : ∀ c, (∀ v y k, c v (relink y k) = c v y) → tally c B' = tally c B

variable {link : β → Place} {link' : γ → Place} {relink : γ → Nat → γ} {D X : List Place}
  {A A' : Array (Array β)} {B B' : Array (Array γ)} {p : Place} {x : β}

/-! ## Pushing a pair -/

/-- A new entry whose partner is pushed at the place that it names has its partner, and all the
others keep theirs. -/
lemma PairedExcept.forth_pushed {y : γ} {s t : Nat} (h : PairedExcept link link' [] [] A B)
    (hx : link x = (t, lengthAt B t)) (hy : link' y = (s, lengthAt A s))
    (pushed : Pushed s x A A') (pushed' : Pushed t y B B') {q : Place} {z : β}
    (hz : entryAt A' q = some z) : ∃ w, entryAt B' (link z) = some w ∧ link' w = q := by
  rw [pushed.entry] at hz
  split at hz
  · rename_i here
    obtain rfl := Option.some.inj hz
    exact ⟨y, by rw [pushed'.entry, if_pos hx], hy.trans here.symm⟩
  · obtain ⟨-, w, hw, hlink⟩ := h.forth hz List.not_mem_nil
    refine ⟨w, ?_, hlink⟩
    rw [pushed'.entry, if_neg, hw]
    intro same
    have inside : (link z).2 < lengthAt B (link z).1 := entryAt_isSome.1 (hw ▸ rfl)
    rw [same] at inside
    exact Nat.lt_irrefl _ inside

/-- Two entries that are pushed with each other's places are paired. -/
lemma PairedExcept.pushed {y : γ} {s t : Nat} (h : PairedExcept link link' [] [] A B)
    (hx : link x = (t, lengthAt B t)) (hy : link' y = (s, lengthAt A s))
    (pushed : Pushed s x A A') (pushed' : Pushed t y B B') :
    PairedExcept link link' [] [] A' B' where
  forth hz _ := ⟨List.not_mem_nil, h.forth_pushed hx hy pushed pushed' hz⟩
  back hz _ := ⟨List.not_mem_nil, h.symm.forth_pushed hy hx pushed' pushed hz⟩

/-! ## Taking an entry out -/

/-- No place gets or loses an entry in the other family. -/
lemma Unhooked.isSome (h : Unhooked relink p x A B A' B') (q : Place) :
    (entryAt B' q).isSome = (entryAt B q).isSome := by
  rcases h.entry q with same | ⟨y, before, after⟩
  · rw [same]
  · rw [before, after]
    rfl

/-- The entries below the slot that becomes free stay where they are. -/
lemma Removed.entry_of_lt (h : Removed p x A A') (hp : entryAt A p = some x) {q : Place}
    (below : q.1 = p.1 → q.2 < p.2) : entryAt A' q = entryAt A q := by
  rw [h.entry]
  have inside : p.2 < lengthAt A p.1 := entryAt_isSome.1 (hp ▸ rfl)
  have distinct : q ≠ p := by
    rintro rfl
    exact absurd (below rfl) (Nat.lt_irrefl _)
  rw [if_neg, if_neg distinct]
  rintro ⟨same, beyond⟩
  have := below same
  omega

/-- A removal of the last entry of a list leaves the pairing of the others as it is. -/
lemma PairedExcept.removed_last (h : PairedExcept link link' (p :: D) X A B)
    (hp : entryAt A p = some x) (last : lengthAt A p.1 = p.2 + 1) (removed : Removed p x A A') :
    PairedExcept link link' D X A' B := by
  have entry : ∀ q, entryAt A' q = if q = p then none else entryAt A q := by
    intro q
    rw [removed.entry, last]
    by_cases here : q = p
    · subst here
      rw [if_pos ⟨rfl, Nat.le_refl _⟩, if_pos rfl]
    · rw [if_neg here, if_neg here]
      split
      · rename_i beyond
        -- beyond the last slot there was no entry before
        have outside : ¬(entryAt A q).isSome := by
          rw [entryAt_isSome, beyond.1, last]
          intro inside
          refine here (Prod.ext beyond.1 ?_)
          omega
        exact (Option.not_isSome_iff_eq_none.1 outside).symm
      · rfl
  constructor
  · intro q z hz hq
    rw [entry] at hz
    split at hz
    · cases hz
    · rename_i other
      exact h.forth hz fun member => (List.mem_cons.1 member).elim other hq
  · intro q y hy hq
    obtain ⟨outside, z, hz, hlink⟩ := h.back hy hq
    refine ⟨fun member => outside (List.mem_cons_of_mem _ member), z, ?_, hlink⟩
    rw [entry, if_neg, hz]
    rintro rfl
    exact outside List.mem_cons_self

/-- If the entry that takes over the vacated slot tells its partner, all entries stay paired. -/
lemma PairedExcept.removed_moved (h : PairedExcept link link' (p :: D) X A B)
    (hrelink : ∀ y k, link' (relink y k) = ((link' y).1, k)) {m : β} {y : γ}
    (inside : p.2 + 1 < lengthAt A p.1) (highest : ∀ q ∈ D, q.1 = p.1 → q.2 < p.2)
    (hm : entryAt A (p.1, lengthAt A p.1 - 1) = some m) (hy : entryAt B (link m) = some y)
    (hback : link' y = (p.1, lengthAt A p.1 - 1)) (hX : link m ∉ X)
    (removed : Removed p x A A') (told : Replaced (link m) y (relink y p.2) B B') :
    PairedExcept link link' D X A' B' := by
  have hp : p ∉ D := fun member => Nat.lt_irrefl _ (highest p member rfl)
  have entry_p : entryAt A' p = some m := by
    rw [removed.entry, if_neg (by omega), if_pos rfl, hm]
  have partner : link' (relink y p.2) = p := by rw [hrelink, hback]
  constructor
  · intro q z hz hq
    by_cases here : q = p
    · subst here
      obtain rfl : m = z := Option.some.inj (entry_p.symm.trans hz)
      exact ⟨hX, _, by rw [told.entry, if_pos rfl], partner⟩
    · rw [removed.entry] at hz
      split at hz
      · cases hz
      · rename_i inner
        obtain ⟨outside, y', hy', hlink⟩ := h.forth hz fun member =>
          (List.mem_cons.1 member).elim here hq
        refine ⟨outside, y', ?_, hlink⟩
        rw [told.entry, if_neg, hy']
        intro same
        rw [same, hy] at hy'
        obtain rfl := Option.some.inj hy'
        rw [hback] at hlink
        subst hlink
        exact inner ⟨rfl, by dsimp only; omega⟩
  · intro q y' hy' hq
    by_cases here : q = link m
    · subst here
      rw [told.entry, if_pos rfl] at hy'
      obtain rfl := Option.some.inj hy'
      rw [partner]
      exact ⟨hp, m, entry_p, rfl⟩
    · rw [told.entry, if_neg here] at hy'
      obtain ⟨outside, z, hz, hlink⟩ := h.back hy' hq
      refine ⟨fun member => outside (List.mem_cons_of_mem _ member), z, ?_, hlink⟩
      have other : link' y' ≠ p := fun same => outside (same ▸ List.mem_cons_self)
      rw [removed.entry, if_neg, if_neg other, hz]
      rintro ⟨same, beyond⟩
      have slot : (link' y').2 < lengthAt A (link' y').1 := entryAt_isSome.1 (hz ▸ rfl)
      rw [same] at slot
      have last : link' y' = (p.1, lengthAt A p.1 - 1) := Prod.ext same (by dsimp only; omega)
      rw [last, hm] at hz
      obtain rfl := Option.some.inj hz
      exact here hlink.symm

/-- Taking out the highest of the entries that have to go from a list. -/
lemma unhook_answers (h : PairedExcept link link' (p :: D) X A B)
    (hrelink : ∀ y k, link' (relink y k) = ((link' y).1, k))
    (highest : ∀ q ∈ D, q.1 = p.1 → q.2 < p.2) (hp : entryAt A p = some x) :
    (unhook link relink p A B).Answers fun r =>
      PairedExcept link link' D X r.1 r.2 ∧ Unhooked relink p x A B r.1 r.2 := by
  obtain ⟨hv, hi, rfl⟩ := lt_of_entryAt hp
  have removed := removed_set hv hi
  have length := lengthAt_of_lt hv
  unfold unhook
  rw [fetch_of_lt hv, ok_bind]
  simp only [hi, if_true, store_of_lt _ hv, ok_bind]
  cases moved : (swapRemove A[p.1] p.2)[p.2]? with
  | none =>
    refine .pure ⟨h.removed_last hp ?_ removed, removed, rfl, fun q => .inl rfl, fun _ _ => rfl⟩
    rw [getElem?_swapRemove hi, if_pos rfl] at moved
    split at moved
    · omega
    · rw [Array.getElem?_eq_none_iff] at moved
      omega
  | some m =>
    rw [getElem?_swapRemove hi, if_pos rfl] at moved
    split at moved
    · cases moved
    · rename_i inside
      have hm : entryAt A (p.1, lengthAt A p.1 - 1) = some m := by
        rw [entryAt_of_lt hv, length, moved]
      -- the last entry of the list is none of those that have to go
      have kept : (p.1, lengthAt A p.1 - 1) ∉ p :: D := by
        intro member
        rcases List.mem_cons.1 member with same | later
        · have := congrArg Prod.snd same
          dsimp only at this
          omega
        · have := highest _ later rfl
          dsimp only at this
          omega
      obtain ⟨hX, y, hy, hback⟩ := h.forth hm kept
      refine (adjust_adjust hy fun y => relink y p.2).bind fun B' told => .pure ?_
      refine ⟨h.removed_moved hrelink (by omega) highest hm hy hback hX removed told, removed,
        told.size, fun q => ?_, fun c hc => ?_⟩
      · rw [told.entry]
        split
        · rename_i here
          exact .inr ⟨y, here ▸ hy, rfl⟩
        · exact .inl rfl
      · have := told.tally c
        rw [hc] at this
        dsimp only
        omega

/-! ## Taking several entries out -/

/-- The place `p` comes before `q` when the entries of a list are taken out from the highest slot
down. -/
def Precedes (p q : Place) : Prop := p.1 < q.1 ∨ p.1 = q.1 ∧ q.2 < p.2

/-- The number of entries with a property at the places in `l`. -/
def claimed (c : Nat → β → Bool) (A : Array (Array β)) (l : List Place) : Nat :=
  (l.map fun p => (entryAt A p).elim 0 fun x => share (c p.1 x)).sum

/-- If there is an entry at each of the places, there are as many entries as places. -/
lemma claimed_true (A : Array (Array β)) :
    ∀ {l : List Place}, (∀ p ∈ l, (entryAt A p).isSome) → claimed (fun _ _ => true) A l = l.length
  | [], _ => rfl
  | p :: l, valid => by
    obtain ⟨x, hx⟩ := Option.isSome_iff_exists.1 (valid p List.mem_cons_self)
    have rest := claimed_true A (l := l) fun q hq => valid q (List.mem_cons_of_mem _ hq)
    unfold claimed at rest ⊢
    rw [List.map_cons, List.sum_cons, rest, hx, List.length_cons, Option.elim_some, share,
      if_pos rfl, Nat.add_comm]

/-- The state in which the entries at the places `l` are still to be taken out, where all of those at
the places `D` have to go. -/
structure Partly (link : β → Place) (link' : γ → Place) (relink : γ → Nat → γ) (D X : List Place)
    (A : Array (Array β)) (B : Array (Array γ)) (l : List Place)
    (r : Array (Array β) × Array (Array γ)) : Prop where
  paired : PairedExcept link link' l X r.1 r.2
  size : r.1.size = A.size ∧ r.2.size = B.size
  sorted : l.Pairwise Precedes
  entry : ∀ p ∈ l, entryAt r.1 p = entryAt A p
  valid : ∀ p ∈ l, (entryAt A p).isSome
  occupied : ∀ q, (entryAt r.2 q).isSome = (entryAt B q).isSome
  taken : ∀ c, tally c r.1 + claimed c A D = tally c A + claimed c A l
  others : ∀ c, (∀ v y k, c v (relink y k) = c v y) → tally c r.2 = tally c B

/-- One entry after the other is taken out. -/
lemma unhook_all (hrelink : ∀ y k, link' (relink y k) = ((link' y).1, k))
    (h : PairedExcept link link' D X A B) (sorted : D.Pairwise Precedes)
    (valid : ∀ p ∈ D, (entryAt A p).isSome) :
    (D.foldlM (fun r p => unhook link relink p r.1 r.2) (A, B)).Answers
      (Partly link link' relink D X A B []) := by
  refine Answers.foldlM_rest (Partly link link' relink D X A B) (fun r p rest now => ?_)
    ⟨h, ⟨rfl, rfl⟩, sorted, fun _ _ => rfl, valid, fun _ => rfl, fun _ => rfl, fun _ _ => rfl⟩
  obtain ⟨x, hx⟩ := Option.isSome_iff_exists.1 (now.valid p List.mem_cons_self)
  have hp : entryAt r.1 p = some x := (now.entry p List.mem_cons_self).trans hx
  obtain ⟨first, sorted⟩ := List.pairwise_cons.1 now.sorted
  have below : ∀ q ∈ rest, q.1 = p.1 → q.2 < p.2 := by
    intro q hq same
    rcases first q hq with less | ⟨-, less⟩
    · omega
    · exact less
  refine (unhook_answers now.paired hrelink below hp).imp fun r' ⟨paired, out⟩ => ?_
  refine ⟨paired, ⟨out.removed.size.trans now.size.1, out.size.trans now.size.2⟩, sorted,
    fun q hq => ?_, fun q hq => now.valid q (List.mem_cons_of_mem _ hq),
    fun q => (out.isSome q).trans (now.occupied q), fun c => ?_,
    fun c hc => (out.tally c hc).trans (now.others c hc)⟩
  · rw [out.removed.entry_of_lt hp (below q hq)]
    exact now.entry q (List.mem_cons_of_mem _ hq)
  · have before := now.taken c
    have step := out.removed.tally c
    have here : claimed c A (p :: rest) = share (c p.1 x) + claimed c A rest := by
      unfold claimed
      rw [List.map_cons, List.sum_cons, hx, Option.elim_some]
    omega

end Leveling
