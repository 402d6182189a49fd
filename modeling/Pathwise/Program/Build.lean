import Pathwise.Program

namespace Pathwise.Build

/-- Everything stands in the first column of a line. -/
def pos (line : UInt64) : Position := .source line 1

def objectClass : String := "java.lang.Object"

def null (line : UInt64) : Instruction := .literal .null (pos line)

def int (i : Int64) (line : UInt64) : Instruction := .literal (.int i) (pos line)

def boolean (b : Bool) (line : UInt64) : Instruction := .literal (.bool b) (pos line)

def read (var : String) (line : UInt64) : Instruction := .read var (pos line)

def assign (var : String) (line : UInt64) : Instruction := .assign var (pos line)

def pop (line : UInt64) : Instruction := .pop (pos line)

/-- Constructs an object with this many arguments of any class. -/
def newObject (className : String) (arguments : Nat) (line : UInt64) : Instruction :=
  .newObject (.ofConstructor className (List.replicate arguments objectClass))
    (List.replicate arguments {}) (pos line)

/-- A call with an argument for each parameter. -/
def invoke (method : Method) (receiver : Bool) (line : UInt64) : Instruction :=
  .invoke method receiver (List.replicate method.parameterTypes.length {}) (pos line)

def invokeWith (method : Method) (receiver : Bool) (arguments : List Argument) (line : UInt64) :
    Instruction :=
  .invoke method receiver arguments (pos line)

/-- Reads a field that holds an integer. -/
def memberSelect (field : String) (line : UInt64) : Instruction :=
  .memberSelect field .int (pos line)

def binary (op : BinaryOp) (line : UInt64) : Instruction := .binary op (pos line)

def not (line : UInt64) : Instruction := .unary .not (pos line)

def typedParameter (name : String) (type : ValueType) (line : UInt64) : Parameter :=
  { name, type, pos := pos line }

def objectParameter (name : String) (line : UInt64) : Parameter :=
  typedParameter name (.reference objectClass) line

/-- A block without handlers. -/
def block (id : BlockId) (instructions : List Instruction) (terminator : Terminator) : Block :=
  { id, instructions, terminator }

def goto (target : BlockId) : Terminator := .goto target

def branch (trueTarget falseTarget : BlockId) (line : UInt64) : Terminator :=
  .branch trueTarget falseTarget (pos line)

def ret (line : UInt64) : Terminator := .ret false (pos line)

def retValue (line : UInt64) : Terminator := .ret true (pos line)

/-- A routine that starts with its first block. -/
def routine (name : String) (parameters : List Parameter) (blocks : List Block) : Routine :=
  { name, parameters, blocks
    entry := (blocks.head?.map Block.id).getD 0
    pos := pos 1 }

end Pathwise.Build
