namespace Pathwise

/-- Counters collected while exploring one routine. They do not wrap: 32-bit counters have the same
values as long as these stay below `2 ^ 32`. -/
structure Statistics where
  steps : Nat := 0
  branches : Nat := 1
  prunes : Nat := 0
  completePaths : Nat := 0
  sinks : Nat := 0
  /-- States dropped because their path came to a point too often. -/
  widenedStates : Nat := 0
  nodes : Nat := 0
  deriving DecidableEq, Repr

namespace Statistics

/-- The counters by name, in the order in which they are reported. -/
def entries (s : Statistics) : List (String × Nat) := [
  ("number_of_steps", s.steps),
  ("number_of_branches", s.branches),
  ("number_of_prunes", s.prunes),
  ("number_of_complete_paths", s.completePaths),
  ("number_of_sinks", s.sinks),
  ("number_of_widened_states", s.widenedStates),
  ("number_of_exploded_nodes", s.nodes)]

end Statistics

end Pathwise
