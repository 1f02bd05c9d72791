import Leveling.Bounds.Basic

/-!
# Tightening

After an arc was inserted, tighter bounds travel from its ends over the network.  A stack
holds the jobs whose neighbours have to be looked at; a neighbour whose bound becomes tighter
goes on the stack itself, or is deferred if its bound lay beyond the range before.

A pass ends because every bound that changes leaves room for its job (a bound that does not
is a fault), so the *slack* of the jobs, which is what their bounds could still move, pays for
the jobs that are put on the stack.
-/

namespace Leveling

/-- Which deferred jobs a pass takes up. -/
inductive Drain where
  /-- None. -/
  | nothing
  /-- Those that the range touches, with their own bound or with one of a neighbour. -/
  | touching
  /-- All of them; such a pass defers no job either. -/
  | everything
deriving DecidableEq

/-- What a pass works with and does not change. -/
structure Pass where
  side : Side
  durations : Array Int
  /-- The limits of the other side. -/
  opposite : Array Int
  /-- Whether the pass defers no job. -/
  complete : Bool
  range : Span

/-- What a pass changes. -/
structure PassState where
  value : Array Int
  deferred : List Nat
  /-- The jobs whose bounds changed, the latest change first; a job counts once per change. -/
  changed : List Nat
  /-- The jobs whose neighbours are to be looked at. -/
  stack : List Nat

/-- Stops if a new bound of a job leaves no room for it before the limit of the other side. -/
def Side.checkRoom (side : Side) (durations opposite : Array Int) (v : Nat) (bound : Int) :
    Checked Unit :=
  match side with
  | .early => do
    let finish ← addTime bound (← fetch durations v)
    unless finish ≤ (← fetch opposite v) do throw (.pastDeadline v)
  | .late => do
    let start ← subTime bound (← fetch durations v)
    unless (← fetch opposite v) ≤ start do throw (.beforeRelease v)

/-- How far a bound of a job could still move before it leaves no room. -/
def Side.slack (side : Side) (durations opposite : Array Int) (v : Nat) (bound : Int) : Nat :=
  match side with
  | .early => (opposite.getD v 0 - durations.getD v 0 - bound).toNat
  | .late => (bound - durations.getD v 0 - opposite.getD v 0).toNat

/-- A tighter bound that leaves room has less slack. -/
theorem Side.slack_lt {side : Side} {durations opposite : Array Int} {v : Nat}
    {old bound : Int} (tighter : side.isTighter bound old = true)
    (room : side.checkRoom durations opposite v bound = .ok ()) :
    side.slack durations opposite v bound < side.slack durations opposite v old := by
  cases side with
  | early =>
    obtain ⟨duration, fetched, h₁⟩ := Checked.bind_eq_ok.1 room
    obtain ⟨finish, added, h₂⟩ := Checked.bind_eq_ok.1 h₁
    obtain ⟨deadline, fetched', h₃⟩ := Checked.bind_eq_ok.1 h₂
    obtain ⟨inside, hduration⟩ := fetch_eq_ok_iff.1 fetched
    obtain ⟨inside', hdeadline⟩ := fetch_eq_ok_iff.1 fetched'
    have sum := addTime_eq_ok added
    by_cases fits : finish ≤ deadline
    · simp only [isTighter, decide_eq_true_eq] at tighter
      simp only [slack, Array.getD, inside, inside', dif_pos, Array.getInternal_eq_getElem,
        hduration, hdeadline]
      omega
    · rw [if_neg fits] at h₃
      cases h₃
  | late =>
    obtain ⟨duration, fetched, h₁⟩ := Checked.bind_eq_ok.1 room
    obtain ⟨start, subtracted, h₂⟩ := Checked.bind_eq_ok.1 h₁
    obtain ⟨release, fetched', h₃⟩ := Checked.bind_eq_ok.1 h₂
    obtain ⟨inside, hduration⟩ := fetch_eq_ok_iff.1 fetched
    obtain ⟨inside', hrelease⟩ := fetch_eq_ok_iff.1 fetched'
    have difference := subTime_eq_ok subtracted
    by_cases fits : release ≤ start
    · simp only [isTighter, decide_eq_true_eq] at tighter
      simp only [slack, Array.getD, inside, inside', dif_pos, Array.getInternal_eq_getElem,
        hduration, hrelease]
      omega
    · rw [if_neg fits] at h₃
      cases h₃

namespace Pass

/-- The slack of all jobs together. -/
def slack (p : Pass) (value : Array Int) : Nat :=
  weight (p.side.slack p.durations p.opposite) value

/-- Records that the bound of job `w` became `bound`, where it was `old` before. -/
def record (p : Pass) (s : PassState) (value : Array Int) (w : Nat) (old : Int) : PassState :=
  if !p.complete && p.side.isBeyond p.range old then
    { s with value, changed := w :: s.changed, deferred := w :: s.deferred }
  else
    { s with value, changed := w :: s.changed, stack := w :: s.stack }

/-- Tightens the bounds of the listed neighbours of a job whose own bound stands for `start`. -/
def relax (p : Pass) (start : Int) : List (Nat × Arc) → PassState → Checked PassState
  | [], s => .ok s
  | (w, arc) :: rest, s => do
    let bound ← p.side.carry p.durations start arc.lag w
    let old ← fetch s.value w
    if p.side.isTighter bound old then
      let value ← store s.value w bound
      p.side.checkRoom p.durations p.opposite w bound
      relax p start rest (p.record s value w old)
    else relax p start rest s

/-- Every job that is put on the stack is paid for by slack. -/
theorem slack_relax (p : Pass) (start : Int) :
    ∀ {neighbours : List (Nat × Arc)} {s s' : PassState},
      p.relax start neighbours s = .ok s' →
        p.slack s'.value + s'.stack.length ≤ p.slack s.value + s.stack.length := by
  intro neighbours
  induction neighbours with
  | nil =>
    intro s s' h
    cases h
    exact Nat.le_refl _
  | cons neighbour rest ih =>
    obtain ⟨w, arc⟩ := neighbour
    intro s s' h
    obtain ⟨bound, _, h₁⟩ := Checked.bind_eq_ok.1 h
    obtain ⟨old, fetched, h₂⟩ := Checked.bind_eq_ok.1 h₁
    by_cases tighter : p.side.isTighter bound old = true
    · rw [if_pos tighter] at h₂
      obtain ⟨value, stored, h₃⟩ := Checked.bind_eq_ok.1 h₂
      obtain ⟨_, room, h₄⟩ := Checked.bind_eq_ok.1 h₃
      obtain ⟨inside, hold⟩ := fetch_eq_ok_iff.1 fetched
      obtain ⟨_, hvalue⟩ := store_eq_ok_iff.1 stored
      have less := Side.slack_lt tighter room
      have replaced :=
        weight_set (p.side.slack p.durations p.opposite) s.value w bound inside
      rw [hvalue, hold] at replaced
      have remaining := ih h₄
      unfold record at remaining
      unfold slack at remaining ⊢
      split at remaining
      · dsimp only at remaining
        omega
      · simp only [List.length_cons] at remaining
        omega
    · rw [if_neg tighter] at h₂
      exact ih h₂

/-- Works off the stack. -/
def settle (p : Pass) (net : Network) (s : PassState) : Checked PassState :=
  match _stack : s.stack with
  | [] => .ok s
  | v :: rest => do
    let start ← p.side.origin p.durations v (← fetch s.value v)
    let neighbours ← net.onward p.side v
    match _relaxed : p.relax start neighbours { s with stack := rest } with
    | .error fault => .error fault
    | .ok s' => settle p net s'
termination_by p.slack s.value + s.stack.length
decreasing_by
  have := p.slack_relax start _relaxed
  dsimp only at this
  rw [_stack, List.length_cons]
  omega

end Pass

namespace Bounds

/-- Whether the range touches a deferred job. -/
def touches (b : Bounds) (net : Network) (side : Side) (range : Span) (v : Nat) :
    Checked Bool := do
  let table := b.table side
  if side.isBeyond range (← fetch table.value v) then
    (← net.onward side v).anyM fun (w, _) => do
      return !side.isBeyond range (← fetch table.value w)
  else return true

/-- The deferred jobs of the list that the range touches, and the others. -/
def splitTouching (b : Bounds) (net : Network) (side : Side) (range : Span) :
    List Nat → Checked (List Nat × List Nat)
  | [] => .ok ([], [])
  | v :: rest => do
    let (taken, kept) ← splitTouching b net side range rest
    if ← b.touches net side range v then return (v :: taken, kept) else return (taken, v :: kept)

/-- The deferred jobs that a pass takes up, and those that it leaves. -/
def drain (b : Bounds) (net : Network) (side : Side) (range : Span) :
    Drain → Checked (List Nat × List Nat)
  | .nothing => .ok ([], (b.table side).deferred)
  | .touching => b.splitTouching net side range (b.table side).deferred
  | .everything => .ok ((b.table side).deferred, [])

/-- Tightens the bounds of one side from the seeds on, and from the deferred jobs that are taken up.
Returns also the jobs whose bounds changed, in the order of the changes. -/
def tighten (b : Bounds) (net : Network) (side : Side) (seeds : List Nat) (drain : Drain)
    (range : Span) : Checked (Bounds × List Nat) := do
  let table := b.table side
  let (taken, deferred) ← b.drain net side range drain
  let pass : Pass :=
    { side, durations := b.durations, opposite := (b.table side.opposite).limit,
      complete := drain == .everything, range }
  let s ← pass.settle net
    { value := table.value, deferred, changed := [], stack := seeds.reverse ++ taken }
  return (b.withTable side { table with value := s.value, deferred := s.deferred },
    s.changed.reverse)

end Bounds

end Leveling
