import Pathwise.Detector

namespace Pathwise.Detector.NullDereference

def name : String := "null-dereference"

/-- How far below the top of the stack the receiver of an element stands. -/
def receiverDepth? : Element → Option Nat
  | .instruction (.memberSelect ..) => some 0
  | .instruction (.invoke _ true arguments _) => some arguments.length
  | _ => none

def message : Option String → String
  | some var => "A \"NullPointerException\" could be thrown; \"" ++ var ++ "\" is nullable here."
  | none => "A \"NullPointerException\" could be thrown; the receiver is nullable here."

def report (w : View) (element : Element) (depth : Nat) (receiver : Value) : Reaction :=
  let var? := w.operandVariable? depth
  let flows := w.flows receiver var?.toList (· == .null) [.object] true
  { result := .ok w.state
    issues := [⟨element.pos, message var?, flows⟩]
    sink := true
    notes := [⟨.debug, "Null receiver",
      [("value", receiver.text), ("flows", toString flows.length)]⟩] }

def before (w : View) (element : Element) : Reaction :=
  match receiverDepth? element with
  | none => .keep w.state
  | some depth =>
    match w.state.peek depth with
    | .error f => .complain (.engine f)
    | .ok receiver =>
      match w.state.constraint? receiver .object with
      | some .null => report w element depth receiver
      | some _ => .keep w.state
      | none => .keep ((w.state.constrainEqual? receiver .notNull).getD w.state)

/-- Reports member accesses and calls on a receiver that is null on the current path. A receiver
that was dereferenced without incident is known not to be null for the rest of the path. -/
def detector : Detector := { name, before }

end Pathwise.Detector.NullDereference
