import Pathwise.Json
import Pathwise.Json.Token

namespace Pathwise.Json

/-- An array or object whose next value is being read. What was read before comes in reverse. -/
inductive Frame where
  | item (before : List Json)
  | member (before : List (Option String × Json)) (key? : Option String)

/-- Where the reader stands, with the frames around it, the innermost first. -/
inductive Reader where
  /-- A value comes next. -/
  | value (outer : List Frame)
  | arrayStart (outer : List Frame)
  | objectStart (outer : List Frame)
  /-- A key comes next, after other members. -/
  | key (outer : List Frame) (before : List (Option String × Json))
  | colon (outer : List Frame) (before : List (Option String × Json)) (key? : Option String)
  | afterItem (outer : List Frame) (items : List Json)
  | afterMember (outer : List Frame) (members : List (Option String × Json))
  | finished (j : Json)

namespace Reader

def complete (j : Json) : List Frame → Reader
  | [] => finished j
  | .item before :: outer => afterItem outer (j :: before)
  | .member before key? :: outer => afterMember outer ((key?, j) :: before)

/-- The object with these members in reverse. -/
def objectOf (members : List (Option String × Json)) : Json :=
  match members.reverse.mapM fun m => m.1.map fun key => (key, m.2) with
  | some members => .object members
  | none => .unreadable

def start (outer : List Frame) : Token → Option Reader
  | .null => some (complete .null outer)
  | .bool b => some (complete (.bool b) outer)
  | .number n => some (complete (.number n) outer)
  | .string (some s) => some (complete (.string s) outer)
  | .string none => some (complete .unreadable outer)
  | .openArray => some (arrayStart outer)
  | .openObject => some (objectStart outer)
  | .closeArray | .closeObject | .comma | .colon => none

/-- Takes one token, if it may stand here. -/
def step : Reader → Token → Option Reader
  | value outer, t => start outer t
  | arrayStart outer, .closeArray => some (complete (.array []) outer)
  | arrayStart outer, t => start (.item [] :: outer) t
  | objectStart outer, .closeObject => some (complete (.object []) outer)
  | objectStart outer, .string key? => some (colon outer [] key?)
  | key outer before, .string key? => some (colon outer before key?)
  | colon outer before key?, .colon => some (value (.member before key? :: outer))
  | afterItem outer items, .comma => some (value (.item items :: outer))
  | afterItem outer items, .closeArray => some (complete (.array items.reverse) outer)
  | afterMember outer members, .comma => some (key outer members)
  | afterMember outer members, .closeObject => some (complete (objectOf members) outer)
  | _, _ => none

end Reader

/-- The value that tokens stand for, if they are those of one value. -/
def ofTokens? (ts : List Token) : Option Json :=
  match ts.foldlM Reader.step (.value []) with
  | some (.finished j) => some j
  | _ => none

/-- Reads a text as one value with white space around it. -/
def parse? (text : String) : Option Json := do
  ofTokens? (← Token.scan? text.toList)

end Pathwise.Json
