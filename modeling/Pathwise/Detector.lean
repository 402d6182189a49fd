import Pathwise.Finding
import Pathwise.Log

namespace Pathwise

/-- When a detector is consulted. -/
inductive Hook where
  | before
  | after
  | pathEnd
  deriving DecidableEq, Repr

/-- The exploration as a detector sees it. -/
structure View where
  graph : Graph
  /-- The node whose element is executed; after an element this is the node that executed it. -/
  id : NodeId
  node : Node
  /-- The current state, as the detectors before this one left it. -/
  state : State
  /-- The limits for assumptions. -/
  budget : Budget
  /-- The flows that answer a query at the node, with or without the edges of exceptions. -/
  explain : Flow.Query → Bool → List Flow

namespace View

/-- Flows that explain why `v`, reached through the variables `symbols`, holds an accepted
constraint of one of the domains. -/
def flows (w : View) (v : Value) (symbols : List String) (accepts : Constraint → Bool)
    (domains : List Domain) (exceptions : Bool) : List Flow :=
  w.explain { value := v, symbols, accepts, domains } exceptions

def operandVariable? (w : View) (depth : Nat) : Option String :=
  w.graph.flow.operandVariable? w.node.point depth

end View

/-- Why a detector gave up on an element. It never stops the exploration. -/
inductive Complaint where
  | engine (cause : Failure)
  | internal (message : String)
  deriving DecidableEq, Repr

namespace Complaint

def message (check : String) : Complaint → String
  | engine cause => check ++ ": " ++ cause.message
  | internal text => check ++ ": " ++ text

end Complaint

structure Observation where
  check : String
  hook : Hook
  /-- The kind of the element, or `end`. -/
  kind : String
  node : NodeId
  point : Point
  /-- The variables read for the three topmost operands. -/
  operands : List (Option String)
  nodeStack : Nat
  state : State
  deriving DecidableEq

/-- A detector's answer. -/
structure Reaction where
  /-- The state to go on with; one who complains leaves it as it was. -/
  result : Except Complaint State
  issues : List Issue := []
  /-- Whether the path stops here. -/
  sink : Bool := false
  notes : List Log.Record := []
  observations : List Observation := []

namespace Reaction

def keep (s : State) : Reaction := { result := .ok s }

def complain (c : Complaint) : Reaction := { result := .error c }

/-- The state that a computation gives, or a complaint about its failure. -/
def ofExcept : Except Failure State → Reaction
  | .ok s => keep s
  | .error f => complain (.engine f)

end Reaction

/-- Observes every element before and after it is executed, and every completed path. It can change
the state that it is handed, report issues and stop a path; the exploded graph is not its own. -/
structure Detector where
  name : String
  before : View → Element → Reaction := fun w _ => .keep w.state
  after : View → Element → Reaction := fun w _ => .keep w.state
  pathEnd : View → Reaction := fun w => .keep w.state

end Pathwise
