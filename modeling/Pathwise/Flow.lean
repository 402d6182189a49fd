import Pathwise.Graph
import Pathwise.Options

namespace Pathwise

namespace Flow

structure Location where
  pos : Position
  message : String
  /-- The point whose element the location describes; parameters have none. -/
  point? : Option Point
  deriving DecidableEq, Repr

end Flow

/-- One causal chain, its origin first. -/
abbrev Flow := List Flow.Location

namespace Flow

/-- What a flow explains: `value` holding a constraint of one of the domains that is accepted.

`symbols` are the variables through which the value came to the place of the report. Only their
assignments are explained; if there are none, every variable bound to the value counts. Constants
are shared by all variables that hold them, so they need symbols. -/
structure Query where
  value : Value
  symbols : List String := []
  accepts : Constraint → Bool
  domains : List Domain

namespace Query

/-- The first accepted constraint, on the value itself or on one known to be equal to it. -/
def satisfied? (q : Query) (s : State) : Option Constraint :=
  (q.value :: s.equalValues q.value).findSome? fun v =>
    (q.domains.filterMap fun d => s.constraint? v d).find? q.accepts

end Query

/-- A chain of edges from the start node back to `node`. -/
structure Chain where
  node : NodeId
  /-- Its locations so far, the earliest first. -/
  locations : Flow := []
  visited : List NodeId
  /-- The variables to explain, all of them if absent. -/
  tracked? : Option (List String)

namespace Chain

def tracks (c : Chain) (var : String) : Bool :=
  match c.tracked? with
  | some vars => vars.contains var
  | none => true

/-- What is said where `constraint` was learned, in the state right after. -/
def learnedMessage (c : Chain) (v : Value) (after : State) (constraint : Constraint) : String :=
  match (after.namesOf v).find? c.tracks with
  | some name => "Implies '" ++ name ++ "' is " ++ constraint.text
  | none => constraint.text

end Chain

def assignedMessage (var : String) : Option Constraint → String
  | some constraint => "'" ++ var ++ "' is assigned " ++ constraint.text
  | none => "'" ++ var ++ "' is assigned"

def parameterLocation (p : Parameter) : Location :=
  ⟨p.pos, "'" ++ p.name ++ "' is a parameter", none⟩

/-- The tracked parameter whose initial value is explained. -/
def origin (g : Graph) (q : Query) (tracks : String → Bool) : Flow :=
  ((g.parameterOf? q.value).filter fun p => tracks p.name).toList.map parameterLocation

/-- Where a search stands. -/
structure Search where
  /-- The chains to extend, the next one first. -/
  pending : List Chain
  flows : List Flow := []
  /-- The edges looked at. -/
  steps : Nat := 0

namespace Search

/-- The flow of a chain that ends with these locations. -/
def flowOf (g : Graph) (q : Query) (c : Chain) (locations : Flow) : Flow :=
  origin g q c.tracks ++ locations

def finish (g : Graph) (q : Query) (c : Chain) (locations : Flow) (flows : List Flow) : List Flow :=
  let flow := flowOf g q c locations
  if flow.isEmpty || flows.contains flow then flows else flows ++ [flow]

/-- The chain that goes on to a parent, if the value was not learned on the edge from there. -/
def extend (g : Graph) (q : Query) (c : Chain) (child parent : Node) (id : NodeId)
    (element : Element) : Chain :=
  let next : Chain := { c with node := id, visited := id :: c.visited }
  match element with
  | .instruction (.assign var pos) =>
    if c.tracks var && child.state.binds var q.value && !parent.state.binds var q.value then
      let message := assignedMessage var (q.satisfied? child.state)
      { next with
        locations := ⟨pos, message, some parent.point⟩ :: c.locations
        -- `var = source` hands the tracking over to `source`
        tracked? := c.tracked?.map fun vars =>
          (g.flow.operandVariable? parent.point 0).toList ++ vars.filter (· != var) }
    else next
  | _ => next

/-- The location where a chain ends because the query was not satisfied before. -/
def learnedAt (q : Query) (c : Chain) (child parent : Node) (element : Element)
    (constraint : Constraint) : Location :=
  ⟨element.pos, c.learnedMessage q.value child.state constraint, some parent.point⟩

/-- Follows one edge from `child`, the last node of chain `c`. -/
def follow (g : Graph) (q : Query) (c : Chain) (child : Node) (e : Edge) (s : Search) : Search :=
  if c.visited.contains e.parent then s
  else
    match g.node? e.parent with
    | none => s
    | some parent =>
      match g.flow.element parent.point with
      | .error _ => s
      | .ok element =>
        match q.satisfied? child.state, q.satisfied? parent.state with
        | some constraint, none =>
          let learned := learnedAt q c child parent element constraint
          { s with flows := finish g q c (learned :: c.locations) s.flows }
        | _, _ => { s with pending := extend g q c child parent e.parent element :: s.pending }

/-- Follows edges in turn; the answer also says whether the limits allow to go on. -/
def followAll (g : Graph) (q : Query) (o : Options) (c : Chain) (child : Node) :
    List Edge → Search → Search × Bool
  | [], s => (s, true)
  | e :: edges, s =>
    if s.flows.length ≥ o.maxFlows then (s, false)
    else if s.steps + 1 > o.maxFlowSteps then (s, false)
    else followAll g q o c child edges (follow g q c child e { s with steps := s.steps + 1 })

theorem follow_pending (g : Graph) (q : Query) (c : Chain) (child : Node) (e : Edge) (s : Search) :
    (follow g q c child e s).pending.length ≤ s.pending.length + 1 ∧
      (follow g q c child e s).steps = s.steps := by
  unfold follow
  repeat' split
  all_goals simp

theorem followAll_measure (g : Graph) (q : Query) (o : Options) (c : Chain) (child : Node)
    (edges : List Edge) (s : Search) :
    let t := (followAll g q o c child edges s).1
    (o.maxFlowSteps - t.steps) + t.pending.length ≤
      (o.maxFlowSteps - s.steps) + s.pending.length := by
  induction edges generalizing s with
  | nil => simp [followAll]
  | cons e edges ih =>
    simp only [followAll]
    split
    · simp
    split
    · simp
    next hsteps =>
      have hf := follow_pending g q c child e { s with steps := s.steps + 1 }
      have hi := ih (follow g q c child e { s with steps := s.steps + 1 })
      simp only at hi hf
      omega

/-- Extends chains until none is left or a limit is reached. A chain ends where the constraint was
learned, or at the entry node. -/
def run (g : Graph) (q : Query) (o : Options) (exceptions : Bool) : Search → List Flow
  | ⟨[], flows, _⟩ => flows
  | ⟨c :: rest, flows, steps⟩ =>
    if flows.length ≥ o.maxFlows then flows
    else
      match g.node? c.node with
      | none => run g q o exceptions ⟨rest, flows, steps⟩
      | some child =>
        if child.parents.isEmpty then
          run g q o exceptions ⟨rest, finish g q c c.locations flows, steps⟩
        else
          -- the last edge first, so that the chain through the first one is extended next
          let edges := child.parents.reverse.filter fun e => exceptions || !e.exceptional
          let next := followAll g q o c child edges ⟨rest, flows, steps⟩
          if next.2 then run g q o exceptions next.1 else next.1.flows
termination_by s => (o.maxFlowSteps - s.steps) + s.pending.length
decreasing_by
  · simp
  · simp
  · have := followAll_measure g q o c child
      (child.parents.reverse.filter fun e => exceptions || !e.exceptional) ⟨rest, flows, steps⟩
    simp only at this
    simp only [List.length_cons]
    omega

end Search

end Flow

namespace Graph

/-- The flows that explain, at node `start`, why the queried value is as it is. Without
`exceptions`, edges are left out that exist only because a call threw. -/
def flows (g : Graph) (start : NodeId) (q : Flow.Query) (o : Options) (exceptions : Bool) :
    List Flow :=
  let tracked? := if q.symbols.isEmpty then none else some q.symbols
  Flow.Search.run g q o exceptions { pending := [{ node := start, visited := [start], tracked? }] }

end Graph

end Pathwise
