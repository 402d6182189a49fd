import Pathwise.Proofs.Paths
import Pathwise.Proofs.Simulation

namespace Pathwise

/-- The node that the successor was merged with, if any, has the very state of the successor, apart
from visits. -/
def Graph.keeps (g : Graph) (a : Successor) : Bool :=
  match (g.find? a.point a.state.cleanup).bind g.node? with
  | some n => decide ({ a.state.cleanup with visits := n.state.visits } = n.state)
  | none => true

namespace Exploration

def keptIn (o : Options) (x : Exploration) (node : Node) (g : Graph) : Bool :=
  match x.graph.flow.outgoing o node.point node.state x.supply with
  | .ok (as, _) => as.all g.keeps
  | .error _ => true

def mergesExactly (o : Options) : (left : Nat) → Exploration → Bool
  | 0, _ => true
  | left + 1, x =>
    match x.pending.next? with
    | none => true
    | some (id, pending) =>
      match x.graph.node? id with
      | none => mergesExactly o left { x with pending }
      | some node =>
        match (x.proceed pending).step [] o id node with
        | (y, none) => x.keptIn o node y.graph && mergesExactly o left y
        | (_, some _) => true

end Exploration

/-- Whether the exploration without detectors merges equal states only. -/
def ControlFlow.mergesExactly (o : Options) (c : ControlFlow) : Bool :=
  (Exploration.start o c).mergesExactly o o.maxSteps

namespace Exploration

variable {o : Options} {flow : ControlFlow} {done : List NodeId} {x y : Exploration}

theorem arrives_enqueue {p : Point} {s : State} {e : Edge} (hs : flow.Arrives o p s.cleanup)
    (hx : ∀ {id node}, x.graph.node? id = some node → flow.Arrives o node.point node.state)
    {id : NodeId} {node : Node} (hnode : (x.enqueue o p s e).graph.node? id = some node) :
    flow.Arrives o node.point node.state := by
  rcases enqueue_cases o x p s e with ⟨i, _, h⟩ | ⟨_, _, h, _⟩ | ⟨_, _, h⟩
  · rw [h] at hnode
    obtain ⟨node', hnode', hpoint, hstate, _⟩ := Graph.node?_addParent_eq_some hnode
    rw [hpoint, hstate]
    exact hx hnode'
  · exact hx (h ▸ hnode)
  · rw [h] at hnode
    rcases Graph.node?_insert_eq_some hnode with hnode | ⟨_, rfl⟩
    · exact hx hnode
    · exact hs.visited _

/-- Whatever the order, a path arrives at every node. -/
theorem Reached.arrives {failure? : Option Failure} (h : Reached [] o flow done x failure?) :
    ∀ {id node}, x.graph.node? id = some node → flow.Arrives o node.point node.state := by
  induction h with
  | start =>
    intro id node hnode
    obtain ⟨_, rfl⟩ := start_node? hnode
    exact ControlFlow.Arrives.start.visited _
  | @step _ x id pending node y _ hx _ hnode hstep ih =>
    intro id' node' hnode'
    cases step_stepped hstep with
    | failed hquiet => exact ih (hquiet.graph ▸ hnode')
    | sunk hne => contradiction
    | performed helement hadjusted hyields henqueued =>
      cases hadjusted.eq_of_nil
      have hflow : (x.proceed pending).graph.flow = flow := hx.flow_eq
      rw [hflow] at helement hyields
      have hsuccessors (a : Successor) (ha : a ∈ _) : flow.Arrives o a.point a.state.cleanup :=
        (ih hnode).step (hx.fresh.below hnode) hx.fresh.free
          (ControlFlow.outgoing_of_yields helement hyields) ha
      exact henqueued.induction (I := fun z => ∀ {id node}, z.graph.node? id = some node →
          flow.Arrives o node.point node.state)
        (fun hquiet hz _ _ hn => hz (hquiet.graph ▸ hn))
        (fun ha hz _ _ hn => arrives_enqueue ha hz hn) hsuccessors ih hnode'

end Exploration

namespace Graph

variable {o : Options} {g h : Graph} {id : NodeId}

/-- What follows the state of node `id` are the states of nodes, up to the choice of ids. -/
def Takes (g : Graph) (o : Options) (id : NodeId) : Prop :=
  ∃ n supply as left, g.node? id = some n ∧ n.state.Below supply.next ∧
    Value.firstFreeId ≤ supply.next ∧ g.flow.outgoing o n.point n.state supply = .ok (as, left) ∧
    ∀ a ∈ as, ∃ j m, g.node? j = some m ∧ m.point = a.point ∧ a.state.cleanup.Alike m.state

theorem Extends.takes (hgh : g.Extends h) (htakes : g.Takes o id) : h.Takes o id := by
  obtain ⟨n, supply, as, left, hn, hbelow, hfree, houtgoing, has⟩ := htakes
  obtain ⟨n', hn', hnn'⟩ := hgh.node hn
  refine ⟨n', supply, as, left, hn', hnn'.state ▸ hbelow, hfree, ?_, fun a ha => ?_⟩
  · rw [hgh.flow, hnn'.point, hnn'.state]
    exact houtgoing
  · obtain ⟨j, m, hm, hp, hs⟩ := has a ha
    obtain ⟨m', hm', hmm'⟩ := hgh.node hm
    exact ⟨j, m', hm', hmm'.point.trans hp, hmm'.state ▸ hs⟩

theorem WellFormed.alike_of_keeps (hg : g.WellFormed o) {a : Successor} (hkeeps : g.keeps a)
    {j : NodeId} {m : Node} (hm : g.node? j = some m) (hp : m.point = a.point)
    (hs : m.state ≈ a.state.cleanup) : a.state.cleanup.Alike m.state := by
  have hfind : g.find? a.point a.state.cleanup = some j := hg.find?_eq_some_iff.2 ⟨m, hm, hp, hs⟩
  rw [keeps, hfind, Option.bind_some, hm] at hkeeps
  have hstate : { a.state.cleanup with visits := m.state.visits } = m.state :=
    of_decide_eq_true hkeeps
  have halike := a.state.cleanup.alike_visits m.state.visits
  rwa [hstate] at halike

/-- If what follows each node is taken in, then so is every path. -/
theorem exists_of_arrives {p : Point} {s : State}
    (htakes : ∀ id n, g.node? id = some n → g.Takes o id)
    (hentry : ∃ n, g.node? 0 = some n ∧ n.point = g.flow.entry ∧
      (State.initial g.flow.parameters {}).1.Alike n.state)
    (h : g.flow.Arrives o p s) : ∃ id n, g.node? id = some n ∧ n.point = p ∧ s.Alike n.state := by
  induction h with
  | start => exact ⟨0, hentry⟩
  | @visited p s visits _ ih =>
    obtain ⟨id, n, hn, hp, hs⟩ := ih
    exact ⟨id, n, hn, hp, (s.alike_visits visits).symm.trans _ _ _ hs⟩
  | @step p s supply as left a _ hbelow hfree houtgoing ha ih =>
    obtain ⟨id, n, hn, rfl, hs⟩ := ih
    obtain ⟨n', supply', bs, left', hn', hbelow', hfree', houtgoing', hbs⟩ := htakes id n hn
    cases hn.symm.trans hn'
    -- the successor is alike to one of the node's, and that one has a node
    have halike := g.flow.outgoing_alike o n.point hs hbelow hfree hbelow' hfree'
    obtain ⟨cs, _, hcs, hcover⟩ := halike.covers.1 as left houtgoing
    cases hcs.symm.trans houtgoing'
    obtain ⟨b, hb, hp, hab⟩ := hcover a ha
    obtain ⟨j, m, hm, hp', hbm⟩ := hbs b hb
    exact ⟨j, m, hm, hp'.trans hp, hab.cleanup.trans _ _ _ hbm⟩

end Graph

namespace Exploration

variable {o : Options} {flow : ControlFlow} {done : List NodeId} {x y : Exploration}

theorem Ran.widened_le {left : Nat} {status : Status} (h : Ran [] o left x y status) :
    x.statistics.widenedStates ≤ y.statistics.widenedStates := by
  induction h with
  | complete => exact Nat.le_refl _
  | exhausted => exact Nat.le_refl _
  | missing _ _ _ ih => exact ih
  | step _ _ hstep _ ih => exact Nat.le_trans (step_stepped hstep).widened_le ih
  | failed _ _ hstep => exact (step_stepped hstep).widened_le

theorem WellFormed.mem_done (h : x.WellFormed o done) (hempty : x.pending.toList = [])
    {id : NodeId} {n : Node} (hn : x.graph.node? id = some n) : id ∈ done := by
  have hpending := h.pending_iff id
  rw [hempty] at hpending
  have hlt := Graph.lt_size hn
  grind

theorem Reached.takes_step {id : NodeId} {pending : Worklist} {node : Node}
    (h : Reached [] o flow done x none) (hnext : x.pending.next? = some (id, pending))
    (hnode : x.graph.node? id = some node)
    (hstep : (x.proceed pending).step [] o id node = (y, none))
    (hkept : x.keptIn o node y.graph) (hwidened : y.statistics.widenedStates = 0) :
    y.graph.Takes o id := by
  have hy := (h.step hnext hnode hstep).wellFormed
  have hstepped := step_stepped hstep
  have hextends : x.graph.Extends y.graph := hstepped.extends
  cases hstepped with
  | sunk hne => contradiction
  | @performed element s as _ helement hadjusted hyields henqueued =>
    cases hadjusted.eq_of_nil
    have houtgoing : x.graph.flow.outgoing o node.point node.state x.supply = .ok (as, y.supply) :=
      ControlFlow.outgoing_of_yields helement hyields
    obtain ⟨n, hn, hnn⟩ := hextends.node hnode
    refine ⟨n, x.supply, as, y.supply, hn, hnn.state ▸ h.fresh.below hnode, h.fresh.free, ?_,
      fun a ha => ?_⟩
    · rw [hextends.flow, hnn.point, hnn.state]
      exact houtgoing
    · -- the node that took the successor in is the one that was compared with it
      rw [keptIn, houtgoing] at hkept
      obtain ⟨j, m, hm, hp, hs, _⟩ := henqueued.exists_node hwidened ha
      have hkeeps := List.all_eq_true.1 hkept a ha
      exact ⟨j, m, hm, hp, hy.graph.alike_of_keeps hkeeps hm hp (Setoid.symm hs)⟩

/-- A run that is complete, drops no state and merges equal states only takes in all its nodes. -/
theorem Reached.takes_run (h : Reached [] o flow done x none) (left : Nat)
    (htakes : ∀ id ∈ done, x.graph.Takes o id) (hexact : x.mergesExactly o left)
    (hcomplete : (x.run [] o left).2 = .complete)
    (hwidened : (x.run [] o left).1.statistics.widenedStates = 0) (id : NodeId) (n : Node)
    (hn : (x.run [] o left).1.graph.node? id = some n) :
    (x.run [] o left).1.graph.Takes o id := by
  induction left generalizing done x with
  | zero =>
    cases hnext : x.pending.next? with
    | none =>
      rw [run_of_none hnext] at hn ⊢
      exact htakes id (h.wellFormed.mem_done (Worklist.next?_eq_none_iff.1 hnext) hn)
    | some next =>
      rw [Exploration.run] at hcomplete
      simp only [hnext] at hcomplete
      contradiction
  | succ left ih =>
    cases hnext : x.pending.next? with
    | none =>
      rw [run_of_none hnext] at hn ⊢
      exact htakes id (h.wellFormed.mem_done (Worklist.next?_eq_none_iff.1 hnext) hn)
    | some next =>
      obtain ⟨node, hnode⟩ := h.wellFormed.node_of_next? hnext
      cases hstep : (x.proceed next.2).step [] o next.1 node with
      | mk y failure? =>
        cases failure? with
        | some f =>
          rw [run_of_failure hnext hnode hstep, Status.ofFailure] at hcomplete
          dsimp only at hcomplete
          split at hcomplete <;> contradiction
        | none =>
          rw [run_of_step hnext hnode hstep] at hcomplete hwidened hn ⊢
          rw [mergesExactly] at hexact
          simp only [hnext, hnode, hstep, Bool.and_eq_true] at hexact
          have hzero : y.statistics.widenedStates = 0 :=
            Nat.eq_zero_of_le_zero (hwidened ▸ (run_ran [] o left y).widened_le)
          have hnew := h.takes_step hnext hnode hstep hexact.1 hzero
          -- nodes that were taken in before stay so, since the graph only grows
          refine ih (h.step hnext hnode hstep) (fun j hj => ?_) hexact.2 hcomplete hwidened hn
          rcases List.mem_append.1 hj with hj | hj
          · exact (step_stepped hstep).extends.takes (htakes j hj)
          · cases List.mem_singleton.1 hj
            exact hnew

end Exploration

def Analysis.points (a : Analysis) : List Point :=
  match a.graph? with
  | some g => g.nodes.toList.map Node.point
  | none => []

theorem Analysis.mem_points {a : Analysis} {g : Graph} (hg : a.graph? = some g) {p : Point} :
    p ∈ a.points ↔ ∃ id n, g.node? id = some n ∧ n.point = p := by
  rw [points, hg]
  simp only [List.mem_map, Indexed.toList, Array.mem_toList_iff, Array.mem_iff_getElem?]
  exact ⟨fun ⟨n, ⟨id, hn⟩, hp⟩ => ⟨id, n, hn, hp⟩, fun ⟨id, n, hn, hp⟩ => ⟨n, ⟨id, hn⟩, hp⟩⟩

open Exploration in
theorem arrives_of_mem_points {o : Options} {flow : ControlFlow} {p : Point}
    (h : p ∈ (explore [] o flow).points) : ∃ s, flow.Arrives o p s := by
  obtain ⟨done, x, failure?, hx, hgraph, _⟩ := explore_reached [] o flow
  obtain ⟨id, n, hn, rfl⟩ := (Analysis.mem_points hgraph).1 h
  exact ⟨n.state, hx.arrives hn⟩

open Exploration in
/-- The points of an exploration are those at which paths arrive, if it is complete, drops no state
and merges equal states only. -/
theorem mem_points_iff_arrives {o : Options} {flow : ControlFlow}
    (hcomplete : (explore [] o flow).status = .complete)
    (hwidened : (explore [] o flow).statistics.widenedStates = 0)
    (hexact : flow.mergesExactly o) {p : Point} :
    p ∈ (explore [] o flow).points ↔ ∃ s, flow.Arrives o p s := by
  refine ⟨arrives_of_mem_points, fun ⟨s, hs⟩ => ?_⟩
  -- all nodes of the last graph are taken in, and the first of them is the start of all paths
  have hstart : Reached [] o flow [] (start o flow) none := .start
  have htakes := hstart.takes_run o.maxSteps nofun hexact hcomplete hwidened
  obtain ⟨_, y, _, hy, hgraph, _, _⟩ := hstart.run o.maxSteps
  rw [hgraph] at htakes
  have hpoints : p ∈ (explore [] o flow).points ↔ ∃ id n, y.graph.node? id = some n ∧ n.point = p :=
    Analysis.mem_points (congrArg some hgraph)
  obtain ⟨n, hn, hp, hstate, _⟩ := hy.extends.node (i := 0) rfl
  have hflow : y.graph.flow = flow := hy.flow_eq
  rw [← hflow] at hs
  obtain ⟨id, m, hm, hp', _⟩ := Graph.exists_of_arrives htakes
    ⟨n, hn, hflow ▸ hp, by rw [hflow, hstate]; exact State.alike_visits _ _⟩ hs
  exact hpoints.2 ⟨id, m, hm, hp'⟩

theorem ControlFlow.Arrives.reorder {o : Options} {flow : ControlFlow} {p : Point} {s : State}
    (h : flow.Arrives o p s) (heuristic : Heuristic) :
    flow.Arrives { o with heuristic } p s := by
  induction h with
  | start => exact .start
  | visited visits _ ih => exact ih.visited visits
  | step _ hbelow hfree houtgoing ha ih => exact ih.step hbelow hfree houtgoing ha

/-- Depth first and breadth first, an exploration without detectors has the same points, if both are
complete, drop no state and merge equal states only. -/
theorem explore_points_depthFirst_iff (o : Options) (flow : ControlFlow)
    (hcomplete : ∀ heuristic, (explore [] { o with heuristic } flow).status = .complete)
    (hwidened : ∀ heuristic,
      (explore [] { o with heuristic } flow).statistics.widenedStates = 0)
    (hexact : ∀ heuristic, flow.mergesExactly { o with heuristic }) (p : Point) :
    p ∈ (explore [] { o with heuristic := .depthFirst } flow).points ↔
      p ∈ (explore [] { o with heuristic := .breadthFirst } flow).points := by
  have hpoints (heuristic : Heuristic) :
      p ∈ (explore [] { o with heuristic } flow).points ↔ ∃ s, flow.Arrives o p s := by
    rw [mem_points_iff_arrives (hcomplete heuristic) (hwidened heuristic) (hexact heuristic)]
    exact ⟨fun ⟨s, hs⟩ => ⟨s, hs.reorder o.heuristic⟩, fun ⟨s, hs⟩ => ⟨s, hs.reorder heuristic⟩⟩
  exact (hpoints .depthFirst).trans (hpoints .breadthFirst).symm

def Block.comparing (id : BlockId) (left right : String) (target : BlockId) : Block where
  id
  instructions := [.read left .unknown, .read right .unknown,
    .invoke ⟨"A", "equals", ["java.lang.Object"], .boolean, false⟩ true [{}] .unknown,
    .assign "x" .unknown]
  terminator := .goto target

/-- Whichever branch it takes, it compares the parameter `b` with `a`, which is null. The second
branch is shorter, and takes the operands in the other order if `swapped`. -/
def ControlFlow.comparison (swapped : Bool) : ControlFlow where
  routine := {
    name := "comparison"
    parameters := [⟨"b", .reference "A", .unknown⟩]
    entry := 0
    blocks := [
      { id := 0
        instructions := [.literal .null .unknown, .assign "a" .unknown,
          .invoke ⟨"A", "c", [], .boolean, false⟩ false [] .unknown]
        terminator := .branch 1 2 .unknown },
      .comparing 1 "a" "b" 8,
      { id := 8, terminator := .goto 3 },
      if swapped then .comparing 2 "b" "a" 3 else .comparing 2 "a" "b" 3,
      { id := 3, instructions := [.read "x" .unknown], terminator := .branch 4 5 .unknown },
      { id := 4, terminator := .exit },
      { id := 5, terminator := .exit }] }
  nodup := by cases swapped <;> decide
  entry_mem := by cases swapped <;> decide
  targets_mem _ hb _ hid :=
    Routine.missingTarget?_eq_none (by cases swapped <;> decide) hb hid

theorem explore_points_depthFirst_iff_comparison :
    ⟨5, 0⟩ ∈ (explore [] { heuristic := .breadthFirst } (.comparison false)).points := by
  have hiff := explore_points_depthFirst_iff {} (.comparison false)
    (fun h => by cases h <;> decide +kernel) (fun h => by cases h <;> decide +kernel)
    (fun h => by cases h <;> decide +kernel) ⟨5, 0⟩
  exact hiff.1 (by decide +kernel)

/-- Block 3 is come to with `x` false, after block 2 or 5, and block 4 also with `x` true. -/
def ControlFlow.detour : ControlFlow where
  routine := {
    name := "detour"
    entry := 0
    blocks := [
      { id := 0
        instructions := [.invoke ⟨"A", "c", [], .boolean, false⟩ false [] .unknown]
        terminator := .branch 1 2 .unknown },
      { id := 1
        instructions := [.literal (.bool true) .unknown, .assign "x" .unknown]
        terminator := .goto 4 },
      { id := 2
        instructions := [.literal (.bool false) .unknown, .assign "x" .unknown]
        terminator := .goto 3 },
      { id := 3, terminator := .goto 4 },
      { id := 4, instructions := [.read "x" .unknown], terminator := .branch 5 6 .unknown },
      { id := 5
        instructions := [.literal (.bool false) .unknown, .assign "x" .unknown]
        terminator := .goto 3 },
      { id := 6, terminator := .exit }] }
  nodup := by decide
  entry_mem := by decide
  targets_mem _ hb _ hid := Routine.missingTarget?_eq_none (by decide) hb hid

/-- The order matters where states are dropped: depth first, block 3 of `detour` is come to on a
path that was at block 4 before. It also matters where equivalent states are merged, even if none is
dropped: what follows from the comparison in `comparison` depends on the order of its operands. -/
theorem explore_points_depend_on_order :
    (∀ heuristic, (explore [] { maxVisitsPerPoint := 1, heuristic } .detour).status = .complete) ∧
    ⟨6, 0⟩ ∉ (explore [] { maxVisitsPerPoint := 1 } .detour).points ∧
    ⟨6, 0⟩ ∈ (explore [] { maxVisitsPerPoint := 1, heuristic := .breadthFirst } .detour).points ∧
    (∀ heuristic, (explore [] { heuristic } (.comparison true)).status = .complete ∧
      (explore [] { heuristic } (.comparison true)).statistics.widenedStates = 0) ∧
    ⟨4, 0⟩ ∉ (explore [] {} (.comparison true)).points ∧
    ⟨4, 0⟩ ∈ (explore [] { heuristic := .breadthFirst } (.comparison true)).points := by
  refine ⟨fun h => ?_, ?_, ?_, fun h => ?_, ?_, ?_⟩
  · cases h <;> decide +kernel
  · decide +kernel
  · decide +kernel
  · cases h <;> decide +kernel
  · decide +kernel
  · decide +kernel

end Pathwise
