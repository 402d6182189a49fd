import Pathwise.ControlFlow
import Pathwise.Indexed
import Pathwise.State.Mark

namespace Pathwise

/-- Nodes are numbered in the order of their creation. -/
abbrev NodeId := Nat

/-- How a node was reached from one of its parents. -/
structure Edge where
  parent : NodeId
  /-- The parent's element completed by an exception. -/
  exceptional : Bool
  deriving DecidableEq, Repr

structure Node where
  point : Point
  state : State
  parents : List Edge
  deriving DecidableEq

namespace Node

/-- The mark of nodes at `p` with a state equivalent to `s`. -/
def markAt (p : Point) (s : State) : UInt64 :=
  mixMark (mixMark p.block (.ofNat p.index)) s.mark

def mark (n : Node) : UInt64 := markAt n.point n.state

/-- Adds an edge, unless it is there already. -/
def addParent (n : Node) (e : Edge) : Node :=
  if e ∈ n.parents then n else { n with parents := n.parents ++ [e] }

@[simp] theorem mark_addParent (n : Node) (e : Edge) : (n.addParent e).mark = n.mark := by
  unfold addParent
  split <;> rfl

end Node

/-- The exploded graph: no two nodes have the same point and the same state. -/
structure Graph where
  flow : ControlFlow
  nodes : Indexed Node.mark := ∅

namespace Graph

def size (g : Graph) : Nat := g.nodes.size

def node? (g : Graph) (id : NodeId) : Option Node := g.nodes.get? id

/-- The node with this point and state. -/
def find? (g : Graph) (p : Point) (s : State) : Option NodeId :=
  g.nodes.find? (Node.markAt p s) fun n => decide (n.point = p) && decide (n.state ≈ s)

theorem find?_eq_findIdx? (g : Graph) (p : Point) (s : State) :
    g.find? p s =
      g.nodes.items.findIdx? fun n => decide (n.point = p) && decide (n.state ≈ s) := by
  refine Indexed.find?_eq_findIdx? fun n h => ?_
  obtain ⟨hp, hs⟩ := Bool.and_eq_true_iff.1 h
  rw [Node.mark, of_decide_eq_true hp, Node.markAt, State.mark_eq_of_equiv (of_decide_eq_true hs)]
  rfl

/-- Adds a node; its id is the number of nodes before. -/
def insert (g : Graph) (p : Point) (s : State) (parents : List Edge) : Graph :=
  { g with nodes := g.nodes.push ⟨p, s, parents⟩ }

/-- Adds an edge to a node, unless it is there already. -/
def addParent (g : Graph) (id : NodeId) (e : Edge) : Graph :=
  { g with nodes := g.nodes.modify id (·.addParent e) fun n => n.mark_addParent e }

/-- The parameter whose initial value is `v`. -/
def parameterOf? (g : Graph) (v : Value) : Option Parameter := do
  let entry ← g.node? 0
  g.flow.parameters.find? fun p => entry.state.binds p.name v

end Graph

end Pathwise
