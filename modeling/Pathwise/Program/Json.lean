import Pathwise.Json.Reader
import Pathwise.Json.Writer
import Pathwise.Program

namespace Pathwise

open Json (required optional tagged)

namespace Position

def toJson : Position → Json
  | unknown => .string "UnknownPosition"
  | source line col =>
    tagged "SourcePos" (.object [("line", .ofUInt64 line), ("col", .ofUInt64 col)])

def ofJson? (j : Json) : Option Position := do
  match ← j.variant? with
  | ("UnknownPosition", none) | ("UnknownPosition", some .null) => return unknown
  | ("SourcePos", some content) =>
    match ← content.fields? ["line", "col"] with
    | [line, col] => return source (← required Json.uint64? line) (← required Json.uint64? col)
    | _ => none
  | _ => none

/-- A position that may be missing. -/
def field? : Option Json → Option Position := optional unknown ofJson?

end Position

namespace ValueType

def toJson : ValueType → Json
  | void => .string "void"
  | boolean => .string "boolean"
  | boxedBoolean => .string "boxed_boolean"
  | int => .string "int"
  | float => .string "float"
  | string => .string "string"
  | reference className => tagged "reference" (.object [("class", .string className)])

def ofWord? : String → Option ValueType
  | "void" => some void
  | "boolean" => some boolean
  | "boxed_boolean" => some boxedBoolean
  | "int" => some int
  | "float" => some float
  | "string" => some string
  | _ => none

def ofJson? (j : Json) : Option ValueType := do
  match ← j.variant? with
  | ("reference", some content) =>
    match ← content.fields? ["class"] with
    | [className] => return reference (← required Json.string? className)
    | _ => none
  | (word, none) | (word, some .null) => ofWord? word
  | _ => none

end ValueType

namespace Literal

def toJson : Literal → Json
  | null => .string "null"
  | bool b => tagged "bool" (.bool b)
  | int i => tagged "int" (.ofInt i.toInt)
  | float x => tagged "float" (.number (.ofFloat x))
  | str s => tagged "str" (.string s)

def ofJson? (j : Json) : Option Literal := do
  match ← j.variant? with
  | ("null", none) | ("null", some .null) => return null
  | ("bool", some content) => return bool (← content.bool?)
  | ("int", some content) => return int (← content.int64?)
  | ("float", some content) => return float (← content.float?)
  | ("str", some content) => return str (← content.string?)
  | _ => none

/-- The literal as it is shown: strings in quotes, floats without an exponent. -/
def text : Literal → String
  | null => "null"
  | bool b => if b then "true" else "false"
  | int i => toString i.toInt
  | float x => plainFloatText x
  | str s => "\"" ++ s ++ "\""

end Literal

namespace Method

def toJson (m : Method) : Json := .object [
  ("owner", .string m.owner),
  ("name", .string m.name),
  ("parameter_types", .ofStrings m.parameterTypes),
  ("returns", m.returns.toJson),
  ("may_throw", .bool m.mayThrow)]

def ofJson? (j : Json) : Option Method := do
  match ← j.fields? ["owner", "name", "parameter_types", "returns", "may_throw"] with
  | [owner, name, parameterTypes, returns, mayThrow] =>
    return {
      owner := ← required Json.string? owner
      name := ← required Json.string? name
      parameterTypes := ← optional [] (Json.list? Json.string?) parameterTypes
      returns := ← required ValueType.ofJson? returns
      mayThrow := ← optional false Json.bool? mayThrow }
  | _ => none

end Method

namespace Argument

def toJson (a : Argument) : Json := .object [("constant", .ofOption Literal.toJson a.constant)]

def constant? : Json → Option (Option Literal)
  | .null => some none
  | j => (Literal.ofJson? j).map some

def ofJson? (j : Json) : Option Argument := do
  match ← j.fields? ["constant"] with
  | [constant] => return { constant := ← optional none constant? constant }
  | _ => none

def listField? : Option Json → Option (List Argument) := optional [] (Json.list? ofJson?)

end Argument

namespace BinaryOp

def word : BinaryOp → String
  | equal => "equal"
  | notEqual => "not_equal"
  | lessThan => "less_than"
  | lessOrEqual => "less_or_equal"
  | greaterThan => "greater_than"
  | greaterOrEqual => "greater_or_equal"
  | and => "and"
  | or => "or"
  | xor => "xor"
  | plus => "plus"
  | minus => "minus"
  | multiply => "multiply"
  | divide => "divide"
  | remainder => "remainder"

def all : List BinaryOp :=
  [equal, notEqual, lessThan, lessOrEqual, greaterThan, greaterOrEqual, and, or, xor, plus, minus,
    multiply, divide, remainder]

def ofWord? (w : String) : Option BinaryOp := all.find? fun op => op.word == w

def ofJson? (j : Json) : Option BinaryOp := j.unit?.bind ofWord?

end BinaryOp

namespace UnaryOp

def word : UnaryOp → String
  | not => "not"
  | negate => "negate"

def ofWord? : String → Option UnaryOp
  | "not" => some not
  | "negate" => some negate
  | _ => none

def ofJson? (j : Json) : Option UnaryOp := j.unit?.bind ofWord?

end UnaryOp

namespace Instruction

def toJson : Instruction → Json
  | literal value pos =>
    tagged "literal" (.object [("value", value.toJson), ("info", pos.toJson)])
  | read var pos => tagged "read" (.object [("var", .string var), ("info", pos.toJson)])
  | assign var pos => tagged "assign" (.object [("var", .string var), ("info", pos.toJson)])
  | pop pos => tagged "pop" (.object [("info", pos.toJson)])
  | newObject method arguments pos =>
    tagged "new_object" (.object [
      ("constructor", method.toJson),
      ("arguments", .array (arguments.map Argument.toJson)),
      ("info", pos.toJson)])
  | invoke method receiver arguments pos =>
    tagged "invoke" (.object [
      ("method", method.toJson),
      ("receiver", .bool receiver),
      ("arguments", .array (arguments.map Argument.toJson)),
      ("info", pos.toJson)])
  | memberSelect field type pos =>
    tagged "member_select" (.object [
      ("field", .string field), ("type_", type.toJson), ("info", pos.toJson)])
  | binary op pos => tagged "binary" (.object [("op", .string op.word), ("info", pos.toJson)])
  | unary op pos => tagged "unary" (.object [("op", .string op.word), ("info", pos.toJson)])

/-- The instruction of this name with this content. -/
def ofContent? (name : String) (content : Json) : Option Instruction :=
  match name with
  | "literal" => do
    match ← content.fields? ["value", "info"] with
    | [value, info] => return literal (← required Literal.ofJson? value) (← Position.field? info)
    | _ => none
  | "read" => do
    match ← content.fields? ["var", "info"] with
    | [var, info] => return read (← required Json.string? var) (← Position.field? info)
    | _ => none
  | "assign" => do
    match ← content.fields? ["var", "info"] with
    | [var, info] => return assign (← required Json.string? var) (← Position.field? info)
    | _ => none
  | "pop" => do
    match ← content.fields? ["info"] with
    | [info] => return pop (← Position.field? info)
    | _ => none
  | "new_object" => do
    match ← content.fields? ["constructor", "arguments", "info"] with
    | [method, arguments, info] =>
      return newObject (← required Method.ofJson? method) (← Argument.listField? arguments)
        (← Position.field? info)
    | _ => none
  | "invoke" => do
    match ← content.fields? ["method", "receiver", "arguments", "info"] with
    | [method, receiver, arguments, info] =>
      return invoke (← required Method.ofJson? method) (← optional false Json.bool? receiver)
        (← Argument.listField? arguments) (← Position.field? info)
    | _ => none
  | "member_select" => do
    match ← content.fields? ["field", "type_", "info"] with
    | [field, type, info] =>
      return memberSelect (← required Json.string? field) (← required ValueType.ofJson? type)
        (← Position.field? info)
    | _ => none
  | "binary" => do
    match ← content.fields? ["op", "info"] with
    | [op, info] => return binary (← required BinaryOp.ofJson? op) (← Position.field? info)
    | _ => none
  | "unary" => do
    match ← content.fields? ["op", "info"] with
    | [op, info] => return unary (← required UnaryOp.ofJson? op) (← Position.field? info)
    | _ => none
  | _ => none

def ofJson? (j : Json) : Option Instruction := do
  match ← j.variant? with
  | (name, some content) => ofContent? name content
  | _ => none

end Instruction

namespace Terminator

def toJson : Terminator → Json
  | goto target => tagged "goto" (.object [("target", .ofUInt64 target)])
  | branch trueTarget falseTarget pos =>
    tagged "branch" (.object [
      ("true_target", .ofUInt64 trueTarget),
      ("false_target", .ofUInt64 falseTarget),
      ("info", pos.toJson)])
  | ret value pos => tagged "return" (.object [("value", .bool value), ("info", pos.toJson)])
  | throw pos => tagged "throw" (.object [("info", pos.toJson)])
  | exit => .string "exit"

def ofJson? (j : Json) : Option Terminator := do
  match ← j.variant? with
  | ("exit", none) | ("exit", some .null) => return exit
  | ("goto", some content) =>
    match ← content.fields? ["target"] with
    | [target] => return goto (← required Json.uint64? target)
    | _ => none
  | ("branch", some content) =>
    match ← content.fields? ["true_target", "false_target", "info"] with
    | [trueTarget, falseTarget, info] =>
      return branch (← required Json.uint64? trueTarget) (← required Json.uint64? falseTarget)
        (← Position.field? info)
    | _ => none
  | ("return", some content) =>
    match ← content.fields? ["value", "info"] with
    | [value, info] => return ret (← optional false Json.bool? value) (← Position.field? info)
    | _ => none
  | ("throw", some content) =>
    match ← content.fields? ["info"] with
    | [info] => return throw (← Position.field? info)
    | _ => none
  | _ => none

end Terminator

namespace Block

def toJson (b : Block) : Json := .object [
  ("id", .ofUInt64 b.id),
  ("instructions", .array (b.instructions.map Instruction.toJson)),
  ("terminator", b.terminator.toJson),
  ("exception_successors", .array (b.handlers.map Json.ofUInt64))]

def ofJson? (j : Json) : Option Block := do
  match ← j.fields? ["id", "instructions", "terminator", "exception_successors"] with
  | [id, instructions, terminator, handlers] =>
    return {
      id := ← required Json.uint64? id
      instructions := ← optional [] (Json.list? Instruction.ofJson?) instructions
      terminator := ← required Terminator.ofJson? terminator
      handlers := ← optional [] (Json.list? Json.uint64?) handlers }
  | _ => none

end Block

namespace Parameter

def toJson (p : Parameter) : Json := .object [
  ("name", .string p.name), ("type_", p.type.toJson), ("info", p.pos.toJson)]

def ofJson? (j : Json) : Option Parameter := do
  match ← j.fields? ["name", "type_", "info"] with
  | [name, type, info] =>
    return {
      name := ← required Json.string? name
      type := ← required ValueType.ofJson? type
      pos := ← Position.field? info }
  | _ => none

end Parameter

namespace Routine

def toJson (r : Routine) : Json := .object [
  ("name", .string r.name),
  ("parameters", .array (r.parameters.map Parameter.toJson)),
  ("entry", .ofUInt64 r.entry),
  ("blocks", .array (r.blocks.map Block.toJson)),
  ("info", r.pos.toJson)]

def ofJson? (j : Json) : Option Routine := do
  match ← j.fields? ["name", "parameters", "entry", "blocks", "info"] with
  | [name, parameters, entry, blocks, info] =>
    return {
      name := ← required Json.string? name
      parameters := ← optional [] (Json.list? Parameter.ofJson?) parameters
      entry := ← required Json.uint64? entry
      blocks := ← required (Json.list? Block.ofJson?) blocks
      pos := ← Position.field? info }
  | _ => none

end Routine

namespace Program

def toJson (p : Program) : Json := .object [("routines", .array (p.routines.map Routine.toJson))]

def ofJson? (j : Json) : Option Program := do
  match ← j.fields? ["routines"] with
  | [routines] => return { routines := ← required (Json.list? Routine.ofJson?) routines }
  | _ => none

/-- Reads the text of a program. Fields with a default may be missing. -/
def parse? (text : String) : Option Program := do
  ofJson? (← Json.parse? text)

def render (p : Program) : String := p.toJson.compact

end Program

end Pathwise
