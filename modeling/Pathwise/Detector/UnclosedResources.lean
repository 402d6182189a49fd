import Pathwise.Detector
import Pathwise.Matcher

namespace Pathwise.Detector.UnclosedResources

open CustomDomain (first second)

def name : String := "unclosed-resources"

/-- Which methods open and close resources, and the id of the detector's domain. -/
structure Config where
  constructors : Matchers
  factories : Matchers
  openings : Matchers
  closings : Matchers
  id : Nat

namespace Config

def parse (constructors factories openings closings : String) (id : Nat) :
    Except Matcher.Error Config :=
  return {
    constructors := ← Matchers.parse constructors
    factories := ← Matchers.parse factories
    openings := ← Matchers.parse openings
    closings := ← Matchers.parse closings
    id }

end Config

/-- Whether a resource is open. What is known of it outlives the value. -/
def resource (id : Nat) : CustomDomain :=
  .ofPair id "resource" "open" "closed" [] false

def opened (id : Nat) : Constraint := .custom (resource id) first

def closed (id : Nat) : Constraint := .custom (resource id) second

/-- Opens `v` and every value known to be equal to it. -/
def markOpen (id : Nat) (s : State) (v : Value) : State :=
  let s := (v :: s.equalValues v).foldl (fun s w => s.release w (.custom id)) s
  (s.constrainEqual? v (opened id)).getD s

/-- Closes `v` and every value known to be equal to it, those of them that are open. -/
def markClosed (id : Nat) (s : State) (v : Value) : State :=
  (v :: s.equalValues v).foldl
    (fun s w =>
      if s.constraint? w (.custom id) = some (opened id) then
        (s.release w (.custom id)).constrain w (closed id)
      else s)
    s

def markAllClosed (id : Nat) (s : State) (vs : List Value) : State := vs.foldl (markClosed id) s

/-- The simple name of the resource type, read off the element that opened it. -/
def resourceType? (config : Config) : Element → Option String
  | .instruction (.newObject method _ _) => some (simpleName method.owner)
  | .instruction (.invoke method _ _ _) =>
    if config.openings.accepts method then some (simpleName method.owner)
    else some method.returns.simpleName
  | _ => none

def before (config : Config) (w : View) (element : Element) : Reaction :=
  let s := w.state
  match element with
  | .instruction (.newObject _ arguments _) => .ofExcept do
    return markAllClosed config.id s (← s.peekMany arguments.length)
  | .instruction (.invoke method receiver arguments _) => .ofExcept do
    if receiver && config.openings.accepts method then
      return markOpen config.id s (← s.peek arguments.length)
    else if receiver && config.closings.accepts method then
      return markClosed config.id s (← s.peek arguments.length)
    else return markAllClosed config.id s (← s.peekMany arguments.length)
  | .terminator (.ret true _) => .ofExcept do
    return markClosed config.id s (← s.peek 0)
  | _ => .keep s

/-- Whether the element leaves a new resource on the stack. -/
def createsResource (config : Config) : Element → Bool
  | .instruction (.newObject method _ _) => config.constructors.accepts method
  | .instruction (.invoke method _ _ _) =>
    !method.returns.isVoid && config.factories.accepts method
  | _ => false

def after (config : Config) (w : View) (element : Element) : Reaction :=
  if createsResource config element then .ofExcept do
    return markOpen config.id w.state (← w.state.peek 0)
  else .keep w.state

/-- Where a resource was opened and its type: the first location of a flow that opened one, or the
parameter it came in by. -/
def origin? (config : Config) (w : View) (v : Value) (flows : List Flow) :
    Option (Position × String) :=
  let ofLocation? (l : Flow.Location) : Option (Position × String) := do
    let element ← (w.graph.flow.element (← l.point?)).toOption
    return (l.pos, ← resourceType? config element)
  flows.flatten.findSome? ofLocation? <|>
    (w.graph.parameterOf? v).map fun p => (p.pos, p.type.simpleName)

def message (type : String) : String := "Close this \"" ++ type ++ "\"."

/-- The report of an open resource, or a note if nothing tells where it came from. -/
def report (config : Config) (w : View) (v : Value) : Issue ⊕ Log.Record :=
  let flows := w.flows v [] (· == opened config.id) [.custom config.id] false
  match origin? config w v flows with
  | some (pos, type) => .inl ⟨pos, message type, flows⟩
  | none => .inr ⟨.debug, "Open resource without origin", [("value", v.text)]⟩

def pathEnd (config : Config) (w : View) : Reaction :=
  if w.state.exit?.isSome then .keep w.state
  else
    let reports := (w.state.valuesWith (opened config.id)).map (report config w)
    { result := .ok w.state
      issues := reports.filterMap Sum.getLeft?
      notes := reports.filterMap Sum.getRight? }

/-- Reports resources that are still open when a path completes normally. Handing a resource to any
call but the opening and closing ones, to a constructor or back to the caller counts as closing it:
ownership leaves the routine. -/
def detector (config : Config) : Detector :=
  { name, before := before config, after := after config, pathEnd := pathEnd config }

end Pathwise.Detector.UnclosedResources
