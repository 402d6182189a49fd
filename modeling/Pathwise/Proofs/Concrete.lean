import Pathwise.ControlFlow
import Pathwise.Execution
import Pathwise.Proofs.Valuation

namespace Pathwise

/-- What a running routine works on. The top of the stack comes first. -/
structure Frame where
  stack : List Datum
  vars : String → Option Datum

namespace BinaryOp

def compares? : BinaryOp → Option (Int → Int → Bool)
  | equal => some fun a b => decide (a = b)
  | notEqual => some fun a b => decide (a ≠ b)
  | lessThan => some fun a b => decide (a < b)
  | lessOrEqual => some fun a b => decide (a ≤ b)
  | greaterThan => some fun a b => decide (a > b)
  | greaterOrEqual => some fun a b => decide (a ≥ b)
  | _ => none

def logical? : BinaryOp → Option (Bool → Bool → Bool)
  | and => some Bool.and
  | or => some Bool.or
  | xor => some Bool.xor
  | _ => none

def isArithmetic : BinaryOp → Bool
  | plus | minus | multiply | divide | remainder => true
  | _ => false

end BinaryOp

/-- What an instruction can do to a frame. The right operand of a binary operator is on top. A call
may answer anything, and arithmetic may come to any integer; there are no objects and no exceptions,
so an instruction that needs one is stuck. -/
inductive Instruction.Runs : Instruction → Frame → Frame → Prop
  | int {i pos stack vars} :
      Runs (.literal (.int i) pos) ⟨stack, vars⟩ ⟨.int i.toInt :: stack, vars⟩
  | bool {b pos stack vars} :
      Runs (.literal (.bool b) pos) ⟨stack, vars⟩ ⟨.bool b :: stack, vars⟩
  | read {var pos stack vars d} : vars var = some d →
      Runs (.read var pos) ⟨stack, vars⟩ ⟨d :: stack, vars⟩
  | assign {var pos stack vars d} :
      Runs (.assign var pos) ⟨d :: stack, vars⟩
        ⟨stack, fun name => if name = var then some d else vars name⟩
  | pop {pos stack vars d} : Runs (.pop pos) ⟨d :: stack, vars⟩ ⟨stack, vars⟩
  | call {method receiver arguments pos operands stack vars d} : method.mayThrow = false →
      method.isEquals = false → method.returns.isVoid = false →
      operands.length = (invoke method receiver arguments pos).operands → d ≠ .null →
      Runs (.invoke method receiver arguments pos) ⟨operands ++ stack, vars⟩ ⟨d :: stack, vars⟩
  | perform {method receiver arguments pos operands stack vars} : method.mayThrow = false →
      method.isEquals = false → method.returns.isVoid = true →
      operands.length = (invoke method receiver arguments pos).operands →
      Runs (.invoke method receiver arguments pos) ⟨operands ++ stack, vars⟩ ⟨stack, vars⟩
  | compare {op pos f a b stack vars} : op.compares? = some f →
      Runs (.binary op pos) ⟨.int b :: .int a :: stack, vars⟩ ⟨.bool (f a b) :: stack, vars⟩
  | logic {op pos f a b stack vars} : op.logical? = some f →
      Runs (.binary op pos) ⟨.bool b :: .bool a :: stack, vars⟩ ⟨.bool (f a b) :: stack, vars⟩
  | arithmetic {op pos a b i stack vars} : op.isArithmetic →
      Runs (.binary op pos) ⟨b :: a :: stack, vars⟩ ⟨.int i :: stack, vars⟩
  | not {pos b stack vars} :
      Runs (.unary .not pos) ⟨.bool b :: stack, vars⟩ ⟨.bool (!b) :: stack, vars⟩
  | negate {pos a i stack vars} :
      Runs (.unary .negate pos) ⟨a :: stack, vars⟩ ⟨.int i :: stack, vars⟩

structure Snapshot where
  point : Point
  frame : Frame

namespace ControlFlow

inductive Moves (c : ControlFlow) : Snapshot → Snapshot → Prop
  | instruction {p i f f'} : c.element p = .ok (.instruction i) → i.Runs f f' →
      Moves c ⟨p, f⟩ ⟨p.next, f'⟩
  | goto {p target f} : c.element p = .ok (.terminator (.goto target)) →
      Moves c ⟨p, f⟩ ⟨⟨target, 0⟩, f⟩
  | branch {p trueTarget falseTarget pos b stack vars} :
      c.element p = .ok (.terminator (.branch trueTarget falseTarget pos)) →
      Moves c ⟨p, ⟨.bool b :: stack, vars⟩⟩
        ⟨⟨if b then trueTarget else falseTarget, 0⟩, ⟨stack, vars⟩⟩

/-- A run starts at the entry, with an integer or a boolean for each parameter. -/
structure Starts (c : ControlFlow) (k : Snapshot) : Prop where
  point : k.point = c.entry
  stack : k.frame.stack = []
  bound : ∀ name, k.frame.vars name ≠ none ↔ ∃ p ∈ c.parameters, p.name = name
  scalar : ∀ name, k.frame.vars name ≠ some .null

end ControlFlow

end Pathwise
