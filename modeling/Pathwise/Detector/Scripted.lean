import Pathwise.Assumption
import Pathwise.Detector

namespace Pathwise.Detector.Scripted

inductive Action where
  /-- Complains. -/
  | fail
  /-- Looks for a value far down the stack, and complains if there is none. -/
  | underflow
  /-- Stops the path. -/
  | sink
  /-- Assumes that the target holds a constraint, and goes on with the first outcome. -/
  | assume (target? : Option String) (c : Constraint)
  /-- Reports an issue, with flows that explain why the target holds a constraint. -/
  | report (target? : Option String) (c : Constraint) (symbols : List String) (exceptions : Bool)
      (message : String)
  /-- Notes down what there is to see. -/
  | record

structure Rule where
  hook : Hook
  /-- The kind of elements that the rule is for, all if absent. -/
  kind? : Option String := none
  action : Action

namespace Rule

def appliesTo (r : Rule) (hook : Hook) (kind : String) : Bool :=
  r.hook == hook && (r.kind?.isNone || r.kind? == some kind)

end Rule

/-- What a rule acts on: the value of a variable, or the top of the stack. -/
def target? (s : State) : Option String → Option Value
  | some var => s.value? var
  | none => s.stack.head?

/-- How far down the stack the `underflow` action looks. -/
def underflowDepth : Nat := 99

/-- The reaction of detector `name` after one more rule, `pos` and `kind` being those of the
element. After a complaint no rule is applied. -/
def apply (name : String) (hook : Hook) (kind : String) (pos : Position) (w : View)
    (reaction : Reaction) (rule : Rule) : Reaction :=
  match reaction.result with
  | .error _ => reaction
  | .ok s =>
    match rule.action with
    | .fail => { reaction with result := .error (.internal "scripted failure") }
    | .underflow =>
      match s.peek underflowDepth with
      | .error f => { reaction with result := .error (.engine f) }
      | .ok _ => reaction
    | .sink => { reaction with sink := true }
    | .assume var? c =>
      match target? s var? with
      | none => reaction
      | some v =>
        match v.assume c w.budget s with
        | .error f => { reaction with result := .error (.engine f) }
        | .ok [] => reaction
        | .ok (s :: _) => { reaction with result := .ok s }
    | .report var? c symbols exceptions message =>
      let flows :=
        match target? s var? with
        | some v => w.flows v symbols (· == c) [c.domain] exceptions
        | none => []
      { reaction with issues := reaction.issues ++ [⟨pos, message, flows⟩] }
    | .record =>
      let observation : Observation := {
        check := name, hook, kind, node := w.id, point := w.node.point
        operands := [0, 1, 2].map w.operandVariable?
        nodeStack := w.node.state.stack.length
        state := s }
      { reaction with observations := reaction.observations ++ [observation] }

/-- Applies the rules for this hook and this kind of element in order. -/
def react (name : String) (rules : List Rule) (hook : Hook) (kind : String) (pos : Position)
    (w : View) : Reaction :=
  (rules.filter (·.appliesTo hook kind)).foldl (apply name hook kind pos w) (.keep w.state)

/-- Follows a script, to try out how detectors act on an exploration. -/
def detector (name : String) (rules : List Rule) : Detector where
  name
  before w element := react name rules .before element.kind element.pos w
  after w element := react name rules .after element.kind element.pos w
  pathEnd w := react name rules .pathEnd "end" .unknown w

end Pathwise.Detector.Scripted
