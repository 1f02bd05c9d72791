import Leveling.Network.Basic

/-!
# Questions about a network

Reachability, topological orders, the check of the network's own bookkeeping, and a drawing.
Reachability is decided by a depth-first walk; it ends because every job is put on the stack
once at most, and is crossed off the list of the new ones when it is.
-/

namespace Leveling

namespace Network

/-- The targets of the outgoing arcs of a job. -/
def targets (net : Network) (v : Nat) : Checked (List Nat) := do
  return (← fetch net.outgoing v).toList.map Arc.target

/-! ## Reachability -/

/-- The share of a job in the number of jobs that were not visited yet. -/
def unvisited (visited : Bool) : Nat := if visited then 0 else 1

/-- Marks the listed jobs as visited and names those that were not, in order. -/
def visitAll (visited : Array Bool) : List Nat → Checked (Array Bool × List Nat)
  | [] => .ok (visited, [])
  | v :: rest => do
    if ← fetch visited v then visitAll visited rest else
      let visited ← store visited v true
      let (visited, fresh) ← visitAll visited rest
      return (visited, v :: fresh)

/-- Every newly visited job is paid for by an unvisited one. -/
theorem weight_visitAll {vs : List Nat} :
    ∀ {visited visited' : Array Bool} {fresh : List Nat},
      visitAll visited vs = .ok (visited', fresh) →
        weight (fun _ => unvisited) visited' + fresh.length ≤
          weight (fun _ => unvisited) visited := by
  induction vs with
  | nil =>
    intro visited visited' fresh h
    cases h
    simp
  | cons v rest ih =>
    intro visited visited' fresh h
    obtain ⟨known, fetched, h₁⟩ := Checked.bind_eq_ok.1 h
    obtain ⟨inside, value⟩ := fetch_eq_ok_iff.1 fetched
    cases known with
    | true => exact ih h₁
    | false =>
      obtain ⟨_, stored, h₂⟩ := Checked.bind_eq_ok.1 h₁
      obtain ⟨⟨_, others⟩, rested, h₃⟩ := Checked.bind_eq_ok.1 h₂
      obtain ⟨_, rfl⟩ := store_eq_ok_iff.1 stored
      have replaced := weight_set (fun _ => unvisited) visited v true inside
      have remaining := ih rested
      rw [value] at replaced
      simp only [unvisited, if_true, Bool.false_eq_true, if_false] at replaced
      cases h₃
      simp only [List.length_cons]
      omega

/-- Whether the walk meets `goal` from the jobs on the stack. -/
def walk (net : Network) (goal : Nat) (visited : Array Bool) (stack : List Nat) :
    Checked Bool :=
  match stack with
  | [] => .ok false
  | v :: rest =>
    if v = goal then .ok true else do
      let targets ← net.targets v
      match _visited : visitAll visited targets with
      | .error fault => .error fault
      | .ok (visited', fresh) => walk net goal visited' (fresh.reverse ++ rest)
termination_by weight (fun _ => unvisited) visited + stack.length
decreasing_by
  have := weight_visitAll _visited
  simp only [List.length_append, List.length_reverse, List.length_cons]
  omega

/-- Whether a path of arcs leads from one job to another. -/
def reaches (net : Network) (source goal : Nat) : Checked Bool := do
  let visited ← store (.replicate net.numJobs false) source true
  net.walk goal visited [source]

/-! ## Order -/

/-- The jobs in an order in which every arc points forward, or nothing if the arcs close a cycle.
The job that became free last is taken first. -/
def order? (net : Network) : Checked (Option (List Nat)) :=
  topologicalOrder? .stack net.targets (net.incoming.map Array.size)

/-! ## Consistency -/

/-- What can be wrong with a network. -/
inductive Defect where
  /-- The counterpart of an arc does not point back. -/
  | brokenBackLink (job : Nat) (slot : Nat)
  /-- The arc of a counterpart does not point back. -/
  | brokenForwardLink (target : Nat) (slot : Nat)
  /-- The number of arcs is not the recorded one. -/
  | arcCount (counted recorded : Nat)
  /-- The arcs close a cycle. -/
  | cycle
deriving DecidableEq

/-- All entries of a list of lists with the numbers of their list and their slot. -/
def entries {β : Type} (lists : Array (Array β)) : List (Nat × Nat × β) :=
  lists.toList.zipIdx.flatMap fun (list, v) => list.toList.zipIdx.map fun (x, i) => (v, i, x)

/-- Accepts a network in which arcs and counterparts point at each other, the number of arcs is the
recorded one, and no cycle is closed. -/
def check (net : Network) : Verdict Defect Unit := do
  let arcs := entries net.outgoing
  arcs.forM fun (source, slot, arc) => do
    let backs ← (fetch net.incoming arc.target : Checked (Array BackArc))
    unless backs[arc.backSlot]? = some ⟨source, slot⟩ do throw (.brokenBackLink source slot)
  (entries net.incoming).forM fun (target, slot, back) => do
    let list ← (fetch net.outgoing back.source : Checked (Array Arc))
    match list[back.slot]? with
    | some arc =>
      unless arc.target = target ∧ arc.backSlot = slot do throw (.brokenForwardLink target slot)
    | none => throw (.brokenForwardLink target slot)
  unless arcs.length = net.arcCount do throw (.arcCount arcs.length net.arcCount)
  if (← (net.order? : Checked (Option (List Nat)))).isNone then throw .cycle

/-- The wording of a defect. -/
def Defect.message : Defect → String
  | .brokenBackLink job slot =>
    s!"edge {job}[{slot}] points to reverse slot that does not point back"
  | .brokenForwardLink target slot =>
    s!"reverse entry {target}[{slot}] points to forward slot that does not point back"
  | .arcCount counted recorded =>
    s!"edge count {counted} does not match bookkeeping {recorded}"
  | .cycle => "graph contains a cycle"

/-! ## Drawing -/

/-- The line that draws an arc; arcs of the instance are bold, all others dashed. -/
def arcLine (source : Nat) (arc : Arc) : String :=
  let style := if arc.permanent then "bold" else "dashed"
  s!"  {source} -> {arc.target} [label=\"{arc.lag}\", style={style}];\n"

/-- The network in the DOT language. -/
def toDot (net : Network) : String :=
  let jobs := (List.range net.numJobs).map fun v => s!"  {v};\n"
  let arcs := net.arcs.map fun (source, arc) => arcLine source arc
  "digraph precedence \x7b\n" ++ String.join jobs ++ String.join arcs ++ "\x7d\n"

end Network

end Leveling
