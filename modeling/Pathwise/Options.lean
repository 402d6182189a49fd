import Pathwise.Relation.Closure

namespace Pathwise

/-- The order in which pending nodes are processed. -/
inductive Heuristic where
  /-- The deepest pending node first, which keeps their number small. -/
  | depthFirst
  | breadthFirst
  deriving DecidableEq, Repr

structure Options where
  /-- Nodes processed for one routine before its exploration is given up. -/
  maxSteps : Nat := 16000
  /-- How often a path may come to a point; further states there are dropped. -/
  maxVisitsPerPoint : Nat := 2
  /-- Flows reported for one finding. -/
  maxFlows : Nat := 20
  /-- Edges that one search for flows may look at. -/
  maxFlowSteps : Nat := 10000
  budget : Budget := {}
  heuristic : Heuristic := .depthFirst
  /-- Whether to follow the exceptions of calls that may throw. -/
  exceptionalPaths : Bool := true
  deriving DecidableEq, Repr

end Pathwise
