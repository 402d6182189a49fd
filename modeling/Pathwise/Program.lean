import Pathwise.Position

namespace Pathwise

/-- Strips package and outer class qualifiers from a fully qualified name. -/
def simpleName (qualified : String) : String :=
  let isSeparator := fun c => c == '.' || c == '$'
  String.ofList (qualified.toList.reverse.takeWhile (!isSeparator ·)).reverse

inductive ValueType where
  | void
  | boolean
  /-- A boolean that may also be null. -/
  | boxedBoolean
  | int
  | float
  | string
  | reference (className : String)
  deriving DecidableEq, Repr

namespace ValueType

def isVoid : ValueType → Bool
  | void => true
  | _ => false

def simpleName : ValueType → String
  | void => "void"
  | boolean => "boolean"
  | boxedBoolean => "Boolean"
  | int => "int"
  | float => "float"
  | string => "String"
  | reference className => Pathwise.simpleName className

end ValueType

inductive Literal where
  | null
  | bool (b : Bool)
  | int (i : Int64)
  | float (x : Float)
  | str (s : String)
  deriving DecidableEq

/-- A resolved call target. -/
structure Method where
  owner : String
  name : String
  parameterTypes : List String := []
  returns : ValueType
  mayThrow : Bool := false
  deriving DecidableEq, Repr

namespace Method

/-- The name all constructors have. -/
def constructorName : String := "<init>"

/-- A constructor returns what it constructs. -/
def ofConstructor (owner : String) (parameterTypes : List String) : Method :=
  { owner, name := constructorName, parameterTypes, returns := .reference owner }

def isConstructor (m : Method) : Bool := m.name == constructorName

def throwing (m : Method) : Method := { m with mayThrow := true }

def text (m : Method) : String :=
  m.owner ++ "#" ++ m.name ++ "(" ++ ", ".intercalate m.parameterTypes ++ ")"

end Method

/-- What is known of an argument expression where it is passed. -/
structure Argument where
  /-- Its value, when it is a compile-time constant. -/
  constant : Option Literal := none
  deriving DecidableEq

inductive BinaryOp where
  | equal
  | notEqual
  | lessThan
  | lessOrEqual
  | greaterThan
  | greaterOrEqual
  | and
  | or
  | xor
  | plus
  | minus
  | multiply
  | divide
  | remainder
  deriving DecidableEq, Repr

inductive UnaryOp where
  | not
  | negate
  deriving DecidableEq, Repr

/-- Instructions work on an evaluation stack. The receiver of a call is pushed before its arguments,
the left operand of a binary operator before the right one. -/
inductive Instruction where
  | literal (value : Literal) (pos : Position)
  | read (var : String) (pos : Position)
  | assign (var : String) (pos : Position)
  | pop (pos : Position)
  | newObject (method : Method) (arguments : List Argument) (pos : Position)
  /-- A call, with its receiver below the arguments on the stack if it has one. -/
  | invoke (method : Method) (receiver : Bool) (arguments : List Argument) (pos : Position)
  | memberSelect (field : String) (type : ValueType) (pos : Position)
  | binary (op : BinaryOp) (pos : Position)
  | unary (op : UnaryOp) (pos : Position)
  deriving DecidableEq

namespace Instruction

def pos : Instruction → Position
  | literal _ p | read _ p | assign _ p | pop p | newObject _ _ p | invoke _ _ _ p
  | memberSelect _ _ p | binary _ p | unary _ p => p

def operands : Instruction → Nat
  | literal _ _ | read _ _ => 0
  | assign _ _ | pop _ | memberSelect _ _ _ | unary _ _ => 1
  | newObject _ arguments _ => arguments.length
  | invoke _ receiver arguments _ => arguments.length + receiver.toNat
  | binary _ _ => 2

def results : Instruction → Nat
  | assign _ _ | pop _ => 0
  | invoke method _ _ _ => if method.returns.isVoid then 0 else 1
  | _ => 1

def callee? : Instruction → Option Method
  | newObject method _ _ | invoke method _ _ _ => some method
  | _ => none

end Instruction

inductive Terminator where
  | goto (target : BlockId)
  /-- Takes the condition from the stack. -/
  | branch (trueTarget falseTarget : BlockId) (pos : Position)
  | ret (value : Bool) (pos : Position)
  | throw (pos : Position)
  | exit
  deriving DecidableEq, Repr

namespace Terminator

def pos : Terminator → Position
  | goto _ | exit => .unknown
  | branch _ _ p | ret _ p | throw p => p

def operands : Terminator → Nat
  | branch _ _ _ | throw _ => 1
  | ret value _ => value.toNat
  | goto _ | exit => 0

/-- The blocks that normal completion leads to. -/
def targets : Terminator → List BlockId
  | goto target => [target]
  | branch trueTarget falseTarget _ => [trueTarget, falseTarget]
  | ret _ _ | throw _ | exit => []

end Terminator

structure Block where
  id : BlockId
  instructions : List Instruction := []
  terminator : Terminator
  /-- Where control goes when an instruction of this block throws. -/
  handlers : List BlockId := []
  deriving DecidableEq

namespace Block

/-- Where the block starts in the source. -/
def pos (b : Block) : Position :=
  match b.instructions with
  | [] => b.terminator.pos
  | i :: _ => i.pos

/-- All blocks that control can reach from this one. -/
def targets (b : Block) : List BlockId := b.terminator.targets ++ b.handlers

end Block

structure Parameter where
  name : String
  type : ValueType
  pos : Position := .unknown
  deriving DecidableEq, Repr

structure Routine where
  name : String
  parameters : List Parameter := []
  entry : BlockId
  blocks : List Block
  pos : Position := .unknown
  deriving DecidableEq

structure Program where
  routines : List Routine
  deriving DecidableEq

end Pathwise
