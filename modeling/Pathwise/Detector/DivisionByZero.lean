import Pathwise.Detector

namespace Pathwise.Detector.DivisionByZero

open CustomDomain (first second)

def name : String := "division-by-zero"

/-- Whether a number is zero. -/
def zeroness (id : Nat) : CustomDomain :=
  .ofPair id "zeroness" "zero" "non-zero" [⟨.notEqual, first, second⟩,
    ⟨.valueEqual, first, first⟩, ⟨.valueEqual, second, second⟩,
    ⟨.valueNotEqual, first, second⟩] true

def zero (id : Nat) : Constraint := .custom (zeroness id) first

def nonZero (id : Nat) : Constraint := .custom (zeroness id) second

def message : Option String → String
  | some var => "Make sure \"" ++ var ++ "\" can't be zero before doing this division."
  | none => "Make sure the divisor can't be zero before doing this division."

def isDivision : Element → Bool
  | .instruction (.binary .divide _) | .instruction (.binary .remainder _) => true
  | _ => false

def report (id : Nat) (w : View) (element : Element) (divisor : Value) : Reaction :=
  let var? := w.operandVariable? 0
  let flows := w.flows divisor var?.toList (· == zero id) [.custom id] true
  { result := .ok w.state
    issues := [⟨element.pos, message var?, flows⟩]
    sink := true
    notes := [⟨.debug, "Zero divisor", [("value", divisor.text)]⟩] }

def before (id : Nat) (w : View) (element : Element) : Reaction :=
  if isDivision element then
    match w.state.peek 0 with
    | .error f => .complain (.engine f)
    | .ok divisor =>
      match w.state.constraint? divisor (.custom id) with
      | some c => if c = zero id then report id w element divisor else .keep w.state
      | none => .keep ((w.state.constrainEqual? divisor (nonZero id)).getD w.state)
  else .keep w.state

/-- The constraint of an integer literal. -/
def literalConstraint? (id : Nat) : Element → Option Constraint
  | .instruction (.literal (.int i) _) => some (if i = 0 then zero id else nonZero id)
  | _ => none

def after (id : Nat) (w : View) (element : Element) : Reaction :=
  match literalConstraint? id element with
  | none => .keep w.state
  | some c => .ofExcept do
    let literal ← w.state.peek 0
    return w.state.constrain literal c

/-- Reports divisions and remainders whose divisor is zero on the current path. Integer literals are
told apart when they are pushed, and a division that completes proves its divisor different from
zero. -/
def detector (id : Nat) : Detector := { name, before := before id, after := after id }

end Pathwise.Detector.DivisionByZero
