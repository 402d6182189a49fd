import Pathwise.Program
import Pathwise.State

namespace Pathwise

/-- A fresh value of the given type. -/
def Supply.ofType (supply : Supply) : ValueType → Value × Supply
  | .boxedBoolean => supply.freshBoolean
  | _ => supply.fresh

namespace Method

/-- Calls of this method with a receiver compare two objects by value. -/
def isEquals (m : Method) : Bool := m.name == "equals" && m.parameterTypes.length == 1

end Method

namespace BinaryOp

/-- The value of `left op right`. -/
def apply (op : BinaryOp) (left right : Value) (supply : Supply) : Value × Supply :=
  match op with
  | equal => (.relational .equal left right, supply)
  | notEqual => (.relational .notEqual left right, supply)
  | lessThan => (.relational .lessThan left right, supply)
  | greaterOrEqual => (.relational .greaterOrEqual left right, supply)
  -- a > b is b < a, and a <= b is b >= a
  | greaterThan => (.relational .lessThan right left, supply)
  | lessOrEqual => (.relational .greaterOrEqual right left, supply)
  | and => supply.binary .and left right
  | or => supply.binary .or left right
  | xor => supply.binary .xor left right
  | plus | minus | multiply | divide | remainder => supply.fresh

end BinaryOp

namespace Instruction

/-- The state after the instruction, and the ids that are left. -/
def execute (i : Instruction) (s : State) (supply : Supply) : Except Failure (State × Supply) :=
  match i with
  | literal .null _ => .ok (s.push .null, supply)
  | literal (.bool true) _ => .ok (s.push .true, supply)
  | literal (.bool false) _ => .ok (s.push .false, supply)
  | literal (.str _) _ =>
    let (v, supply) := supply.fresh
    .ok ((s.constrain v .notNull).push v, supply)
  | literal (.int _) _ | literal (.float _) _ =>
    let (v, supply) := supply.fresh
    .ok (s.push v, supply)
  | read var _ =>
    match s.value? var with
    | some v => .ok (s.push v, supply)
    | none => .error (.unboundVariable var)
  | assign var _ => do
    let (s, v) ← s.pop
    return (s.put var v, supply)
  | pop _ => do
    let (s, _) ← s.pop
    return (s, supply)
  | newObject _ arguments _ => do
    let (s, _) ← s.unstack arguments.length
    let (v, supply) := supply.fresh
    return ((s.constrain v .notNull).push v, supply)
  | invoke method _ _ _ => do
    let (s, operands) ← s.unstack i.operands
    match method.isEquals, operands with
    | true, [left, right] => return (s.push (.relational .valueEqual left right), supply)
    | _, _ =>
      if method.returns.isVoid then return (s, supply)
      else
        let (v, supply) := supply.ofType method.returns
        return (s.push v, supply)
  | memberSelect _ type _ => do
    let (s, _) ← s.pop
    let (v, supply) := supply.ofType type
    return (s.push v, supply)
  | binary op _ => do
    match ← s.unstack 2 with
    | (s, [left, right]) =>
      let (v, supply) := op.apply left right supply
      return (s.push v, supply)
    | (s, _) => return (s, supply)
  | unary op _ => do
    let (s, operand) ← s.pop
    let (v, supply) :=
      match op with
      | .not => supply.not operand
      | .negate => supply.fresh
    return (s.push v, supply)

/-- The state in which a call that may throw does so: its operands are gone and it has no result.
Absent for instructions that do not throw. -/
def abrupt? (i : Instruction) (s : State) : Except Failure (Option State) :=
  match i.callee? with
  | some method =>
    if method.mayThrow then do
      let (s, _) ← s.unstack i.operands
      return some s
    else .ok none
  | none => .ok none

end Instruction

end Pathwise
