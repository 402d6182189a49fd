import Pathwise.Program
import Pathwise.Text.Blank

namespace Pathwise

/-- `owner.Type#method` matches every overload of `method`, and `owner.Type#method(T1, T2)` only the
one with exactly those parameter types. Without `#` the matcher designates a constructor. -/
structure Matcher where
  owner : String
  name : String
  /-- The parameter types, any if absent. -/
  parameters : Option (List String) := none
  deriving DecidableEq, Repr

namespace Matcher

/-- A text that is no matcher, without white space at its ends. -/
structure Error where
  text : String
  deriving DecidableEq, Repr

def Error.message (e : Error) : String := "Malformed method matcher '" ++ e.text ++ "'"

def ofMethod (owner name : String) : Matcher := { owner, name }

def ofConstructor (owner : String) : Matcher := { owner, name := Method.constructorName }

def withParameters (m : Matcher) (parameters : List String) : Matcher :=
  { m with parameters := some parameters }

def accepts (m : Matcher) (method : Method) : Bool :=
  m.owner == method.owner && m.name == method.name &&
    match m.parameters with
    | some types => types == method.parameterTypes
    | none => true

def text (m : Matcher) : String :=
  m.owner ++ (if m.name = Method.constructorName then "" else "#" ++ m.name) ++
    match m.parameters with
    | some types => "(" ++ ", ".intercalate types ++ ")"
    | none => ""

/-- Owners and names are not empty and hold neither white space nor `#`. -/
def isName (cs : List Char) : Bool := !cs.isEmpty && cs.all fun c => !Text.isBlank c && c != '#'

/-- Parameter types are not empty and hold no parentheses. -/
def isType (cs : List Char) : Bool := !cs.isEmpty && cs.all fun c => c != '(' && c != ')'

/-- The parameter types in a text that starts with the opening parenthesis, if it has one. -/
def parseParameters? : List Char → Option (Option (List String))
  | [] => some none
  | _ :: inner =>
    if inner.getLast? = some ')' then
      let inner := inner.dropLast
      let types := if (Text.trim inner).isEmpty then [] else (Text.splitAt ',' inner).map Text.trim
      if types.all isType then some (some (types.map String.ofList)) else none
    else none

/-- The owner and the name before the parameters. -/
def parseSignature? (cs : List Char) : Option (String × String) :=
  let owner := cs.takeWhile (· != '#')
  match cs.dropWhile (· != '#') with
  | [] => if isName owner then some (String.ofList owner, Method.constructorName) else none
  | _ :: name =>
    if isName owner && isName name then some (String.ofList owner, String.ofList name) else none

/-- The matcher that a text without white space at its ends describes. -/
def parseTrimmed? (cs : List Char) : Option Matcher := do
  let parameters ← parseParameters? (cs.dropWhile (· != '('))
  let (owner, name) ← parseSignature? (cs.takeWhile (· != '('))
  return { owner, name, parameters }

/-- Reads a matcher. A blank text is the absent matcher, which matches nothing. -/
def parse (text : String) : Except Error (Option Matcher) :=
  let cs := Text.trim text.toList
  if cs.isEmpty then .ok none
  else
    match parseTrimmed? cs with
    | some m => .ok (some m)
    | none => .error ⟨String.ofList cs⟩

end Matcher

abbrev Matchers := List Matcher

namespace Matchers

/-- The set of one matcher, empty for a blank text. -/
def parse (text : String) : Except Matcher.Error Matchers :=
  return (← Matcher.parse text).toList

def accepts (ms : Matchers) (method : Method) : Bool := ms.any (·.accepts method)

end Matchers

end Pathwise
