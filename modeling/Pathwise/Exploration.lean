import Pathwise.Assumption
import Pathwise.Detector
import Pathwise.Execution
import Pathwise.Statistics
import Pathwise.Text.Quoted
import Pathwise.Worklist

namespace Pathwise

/-- How an exploration ended. -/
inductive Status where
  | complete
  /-- A budget ran out; what was found up to there is kept. -/
  | incomplete (reason : Failure)
  /-- The routine broke the rules of the stack or of the control-flow graph. -/
  | aborted (reason : Failure)
  deriving DecidableEq, Repr

namespace Status

def ofFailure (f : Failure) : Status := if f.isBudget then incomplete f else aborted f

def text : Status → String
  | complete => "complete"
  | incomplete reason => "incomplete: " ++ reason.message
  | aborted reason => "aborted: " ++ reason.message

end Status

def Failure.logText : Failure → String
  | stackUnderflow needed available =>
    "StackUnderflow \x7b needed: " ++ toString needed ++ ", available: " ++ toString available ++
      " \x7d"
  | malformed cause => "MalformedCfg(" ++ Text.quoted cause.message ++ ")"
  | unboundVariable name => "UnboundVariable(" ++ Text.quoted name ++ ")"
  | relationsExceeded used iterations =>
    "TransitiveRelationExceeded \x7b used: " ++ toString used ++ ", iterations: " ++
      toString iterations ++ " \x7d"
  | stepsExceeded steps => "MaxStepsReached(" ++ toString steps ++ ")"
  | nestingExceeded => "NestingExceeded"

def Status.logText : Status → String
  | complete => "Complete"
  | incomplete reason => "Incomplete(" ++ reason.logText ++ ")"
  | aborted reason => "Aborted(" ++ reason.logText ++ ")"

/-- What an exploration reports. -/
structure Journal where
  findings : List Finding := []
  log : Log := #[]
  trace : Array Observation := #[]

namespace Journal

def write (j : Journal) (level : Log.Level) (message : String) (fields : List (String × String)) :
    Journal :=
  { j with log := j.log.push ⟨level, message, fields⟩ }

def complaintMessage : Hook → String
  | .before => "Check failed before statement"
  | .after => "Check failed after statement"
  | .pathEnd => "Check failed at end of path"

/-- Takes down what the detector `check` had to say. -/
def add (j : Journal) (o : Options) (check : String) (hook : Hook) (r : Reaction) : Journal :=
  let j := { j with
    findings := r.issues.foldl (fun fs i => Finding.report o.maxFlows check i fs) j.findings
    log := j.log ++ r.notes
    trace := j.trace ++ r.observations }
  match r.result with
  | .ok _ => j
  | .error c =>
    j.write .warning (complaintMessage hook) [("check", check), ("error", c.message check)]

/-- Asks the detectors one after the other, each about the state that the one before left, until
one of them stops the path. Gives the last state and whether the path is stopped. -/
def consult (o : Options) (hook : Hook) (react : Detector → State → Reaction) :
    List Detector → State → Journal → State × Bool × Journal
  | [], s, j => (s, false, j)
  | d :: ds, s, j =>
    let r := react d s
    let s := match r.result with
      | .ok s => s
      | .error _ => s
    let j := j.add o d.name hook r
    if r.sink then (s, true, j) else consult o hook react ds s j

end Journal

/-- The exploration of a routine, at some moment. -/
structure Exploration where
  graph : Graph
  pending : Worklist
  supply : Supply := {}
  statistics : Statistics := {}
  /-- Terminal states that the detectors were asked about. -/
  ended : Indexed State.mark := ∅
  journal : Journal := {}

namespace Exploration

variable (detectors : List Detector) (o : Options)

/-- Adds a state at a point, reached by an edge, unless it is known or its path came there too
often. -/
def enqueue (x : Exploration) (p : Point) (s : State) (e : Edge) : Exploration :=
  let s := s.cleanup
  match x.graph.find? p s with
  | some id => { x with graph := x.graph.addParent id e }
  | none =>
    if s.visitCount p ≥ o.maxVisitsPerPoint then
      { x with
        statistics.widenedStates := x.statistics.widenedStates + 1
        journal := x.journal.write .debug
          "Dropping state, program point visited too often on this path" [("point", p.text)] }
    else
      let id := x.graph.size
      { x with
        pending := x.pending.add id
        graph := x.graph.insert p (s.visit p) [e]
        statistics.nodes := x.statistics.nodes + 1 }

/-- What the detectors see when the node `id` is processed. -/
def view (x : Exploration) (id : NodeId) (node : Node) (state : State) : View :=
  { graph := x.graph, id, node, state, budget := o.budget, explain := (x.graph.flows id · o ·) }

def askBefore (x : Exploration) (id : NodeId) (node : Node) (element : Element) :
    State × Bool × Journal :=
  Journal.consult o .before (fun d s => d.before (x.view o id node s) element) detectors node.state
    x.journal

def askAfter (x : Exploration) (id : NodeId) (node : Node) (s : State) (element : Element) :
    State × Bool × Journal :=
  Journal.consult o .after (fun d s => d.after (x.view o id node s) element) detectors s x.journal

/-- Ends a path at `node`, and asks the detectors about a terminal state that is new. -/
def endPath (x : Exploration) (id : NodeId) (node : Node) (s : State) : Exploration :=
  let s := s.cleanup
  let x := { x with statistics.completePaths := x.statistics.completePaths + 1 }
  if (x.ended.find? s.mark fun t => decide (t ≈ s)).isSome then x
  else
    { x with
      ended := x.ended.push s
      journal := detectors.foldl
        (fun j d => j.add o d.name .pathEnd (d.pathEnd (x.view o id node s))) x.journal }

/-- Goes on with what a call gives. One that fails ends the step, and leaves what was done before it. -/
def attempt {α : Type} (x : Exploration) (call : Except Failure α)
    (next : α → Exploration × Option Failure) : Exploration × Option Failure :=
  match call with
  | .ok a => next a
  | .error f => (x, some f)

/-- Hands an exception to the handlers of the block, or leaves the routine if there are none. -/
def raise (x : Exploration) (id : NodeId) (node : Node) (s : State) (exception : Value) :
    Exploration × Option Failure :=
  let s := s.constrain exception .notNull
  x.attempt (x.graph.flow.handlers node.point.block) fun
    | [] => (x.endPath detectors o id node (s.exitWith exception), none)
    | handlers =>
      (handlers.foldl
        (fun x handler => x.enqueue o ⟨handler, 0⟩ (s.push exception) ⟨id, true⟩) x, none)

/-- Follows the path on which an instruction throws, if it may. -/
def throwing (x : Exploration) (id : NodeId) (node : Node) (s : State) (i : Instruction) :
    Exploration × Option Failure :=
  if o.exceptionalPaths then
    x.attempt (i.abrupt? s) fun
      | some thrown =>
        let (exception, supply) := x.supply.fresh
        raise detectors o { x with supply } id node thrown exception
      | none => (x, none)
  else (x, none)

/-- Follows the path on which an instruction completes. -/
def completing (x : Exploration) (id : NodeId) (node : Node) (s : State) (i : Instruction) :
    Exploration × Option Failure :=
  x.attempt (i.execute s x.supply) fun (s, supply) =>
    let (s, sink, journal) := x.askAfter detectors o id node s (.instruction i)
    let x := { x with supply, journal }
    if sink then ({ x with statistics.sinks := x.statistics.sinks + 1 }, none)
    else (x.enqueue o node.point.next s ⟨id, false⟩, none)

/-- Executes an instruction: the path on which it throws, then the one on which it completes. What was
done for the first stays if the second fails. -/
def instruct (x : Exploration) (id : NodeId) (node : Node) (s : State) (i : Instruction) :
    Exploration × Option Failure :=
  match x.throwing detectors o id node s i with
  | (x, none) => x.completing detectors o id node s i
  | (x, some f) => (x, some f)

/-- Continues in both targets with the states that agree with the condition. The states where it
holds are added last, so depth-first exploration takes them first. -/
def branch (x : Exploration) (id : NodeId) (node : Node) (s : State)
    (trueTarget falseTarget : BlockId) : Exploration × Option Failure :=
  x.attempt s.pop fun (s, condition) =>
  x.attempt (condition.assume (.truth false) o.budget s) fun falseStates =>
  x.attempt (condition.assume (.truth true) o.budget s) fun trueStates =>
    let pruned := trueStates.isEmpty || falseStates.isEmpty
    let x := { x with
      statistics.prunes := x.statistics.prunes + pruned.toNat
      statistics.branches := x.statistics.branches + (trueStates.length + falseStates.length - 1)
      journal := x.journal.write .debug "Branching" [
        ("point", node.point.text), ("condition", condition.text),
        ("true_states", toString trueStates.length),
        ("false_states", toString falseStates.length)] }
    let x := falseStates.foldl (fun x s => x.enqueue o ⟨falseTarget, 0⟩ s ⟨id, false⟩) x
    (trueStates.foldl (fun x s => x.enqueue o ⟨trueTarget, 0⟩ s ⟨id, false⟩) x, none)

def terminate (x : Exploration) (id : NodeId) (node : Node) (s : State) :
    Terminator → Exploration × Option Failure
  | .goto target => (x.enqueue o ⟨target, 0⟩ s ⟨id, false⟩, none)
  | .branch trueTarget falseTarget _ => x.branch o id node s trueTarget falseTarget
  | .ret false _ | .exit => (x.endPath detectors o id node s, none)
  | .ret true _ => x.attempt s.pop fun (s, _) => (x.endPath detectors o id node s, none)
  | .throw _ => x.attempt s.pop fun (s, exception) => x.raise detectors o id node s exception

def perform (x : Exploration) (id : NodeId) (node : Node) (s : State) :
    Element → Exploration × Option Failure
  | .instruction i => x.instruct detectors o id node s i
  | .terminator t => x.terminate detectors o id node s t

/-- Processes a node: asks the detectors, and executes the element unless they stop the path. Also
gives the failure that ends the exploration, if there is one; then nothing has changed but the
journal. -/
def step (x : Exploration) (id : NodeId) (node : Node) : Exploration × Option Failure :=
  match x.graph.flow.element node.point with
  | .error f => (x, some f)
  | .ok element =>
    let (s, sink, journal) := x.askBefore detectors o id node element
    let x := { x with journal }
    if sink then
      ({ x with
        statistics.sinks := x.statistics.sinks + 1
        journal := x.journal.write .debug "Path ends in a sink"
          [("point", node.point.text)] }, none)
    else x.perform detectors o id node s element

/-- What the log says about a failed step. -/
def recordFailure (x : Exploration) (node : Node) (f : Failure) : Exploration :=
  { x with
    journal :=
      if f.isBudget then
        x.journal.write .warning "Exploration budget exceeded" [("error", f.message)]
      else
        x.journal.write .error "Exploration aborted"
          [("error", f.message), ("point", node.point.text)] }

/-- The exploration while a node is processed and the others are pending. -/
def proceed (x : Exploration) (pending : Worklist) : Exploration :=
  { x with pending, statistics.steps := x.statistics.steps + 1 }

/-- Processes pending nodes, at most `left` of them. -/
def run : (left : Nat) → Exploration → Exploration × Status
  | left, x =>
    match x.pending.next? with
    | none => (x, .complete)
    | some (id, pending) =>
      match left, x.graph.node? id with
      | 0, _ =>
        let journal := x.journal.write .warning
          "Maximum number of steps reached, routine is only partially explored"
          [("pending", toString pending.size)]
        ({ x with pending, journal }, .incomplete (.stepsExceeded o.maxSteps))
      | left + 1, none => run left { x with pending }
      | left + 1, some node =>
        match (x.proceed pending).step detectors o id node with
        | (x, none) => run left x
        | (x, some f) => (x.recordFailure node f, .ofFailure f)

def start (flow : ControlFlow) : Exploration :=
  let (s, supply) := State.initial flow.parameters {}
  { graph := Graph.insert { flow } flow.entry (s.visit flow.entry) []
    pending := Worklist.add { heuristic := o.heuristic } 0
    supply
    statistics := { nodes := 1 } }

end Exploration

structure Analysis where
  routine : String
  /-- Absent if the routine's control-flow graph was rejected. -/
  graph? : Option Graph
  status : Status
  statistics : Statistics
  journal : Journal

def explore (detectors : List Detector) (o : Options) (flow : ControlFlow) : Analysis :=
  let (x, status) := (Exploration.start o flow).run detectors o o.maxSteps
  let journal := x.journal.write .debug "Exploration finished" [
    ("status", status.logText), ("nodes", toString x.graph.size),
    ("findings", toString x.journal.findings.length)]
  { routine := flow.name
    graph? := some x.graph
    status
    statistics := x.statistics
    journal := { journal with log := journal.log.map (·.within flow.name) } }

namespace Routine

/-- Explores a routine, if its control-flow graph is well formed. -/
def analyze (detectors : List Detector) (o : Options) (r : Routine) : Analysis :=
  match ControlFlow.ofRoutine r with
  | .ok flow => explore detectors o flow
  | .error f =>
    { routine := r.name
      graph? := none
      status := .aborted f
      statistics := {}
      journal := Journal.write {} .error "Skipping routine"
        [("routine", r.name), ("error", f.message)] }

end Routine

namespace Program

/-- Explores every routine. One that cannot be explored does not keep the others from it. -/
def analyze (detectors : List Detector) (o : Options) (p : Program) : List Analysis :=
  p.routines.map (·.analyze detectors o)

end Program

end Pathwise
