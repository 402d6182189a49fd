import Pathwise.Json

namespace Pathwise.Json

/-- A character inside a string: quotes, backslashes and control characters are escaped. -/
def escapeChar (c : Char) : List Char :=
  match c with
  | '"' => ['\\', '"']
  | '\\' => ['\\', '\\']
  | '\x08' => ['\\', 'b']
  | '\x0c' => ['\\', 'f']
  | '\n' => ['\\', 'n']
  | '\r' => ['\\', 'r']
  | '\t' => ['\\', 't']
  | c =>
    if c < ' ' then
      ['\\', 'u', '0', '0', Nat.digitChar (c.toNat / 16), Nat.digitChar (c.toNat % 16)]
    else [c]

def renderString (s : String) : List Char := '"' :: s.toList.flatMap escapeChar ++ ['"']

mutual

def render : Json → List Char
  | null | unreadable => ['n', 'u', 'l', 'l']
  | bool true => ['t', 'r', 'u', 'e']
  | bool false => ['f', 'a', 'l', 's', 'e']
  | number n => n.render
  | string s => renderString s
  | array [] => ['[', ']']
  | array (j :: js) => '[' :: render j ++ renderItems js
  | object [] => ['\x7b', '\x7d']
  | object ((key, j) :: ms) => '\x7b' :: renderString key ++ ':' :: render j ++ renderMembers ms

/-- The items after the first one, and the closing bracket. -/
def renderItems : List Json → List Char
  | [] => [']']
  | j :: js => ',' :: render j ++ renderItems js

/-- The members after the first one, and the closing brace. -/
def renderMembers : List (String × Json) → List Char
  | [] => ['\x7d']
  | (key, j) :: ms => ',' :: renderString key ++ ':' :: render j ++ renderMembers ms

end

/-- The text of a value without white space. -/
def compact (j : Json) : String := String.ofList j.render

/-- A line break and the indentation of this depth. -/
def lineBreak (depth : Nat) : List Char := '\n' :: List.replicate (2 * depth) ' '

mutual

def renderPretty (depth : Nat) : Json → List Char
  | array (j :: js) =>
    '[' :: lineBreak (depth + 1) ++ renderPretty (depth + 1) j ++ renderPrettyItems depth js
  | object ((key, j) :: ms) =>
    '\x7b' :: lineBreak (depth + 1) ++ renderString key ++ ':' :: ' ' ::
      renderPretty (depth + 1) j ++ renderPrettyMembers depth ms
  | j => render j

def renderPrettyItems (depth : Nat) : List Json → List Char
  | [] => lineBreak depth ++ [']']
  | j :: js =>
    ',' :: lineBreak (depth + 1) ++ renderPretty (depth + 1) j ++ renderPrettyItems depth js

def renderPrettyMembers (depth : Nat) : List (String × Json) → List Char
  | [] => lineBreak depth ++ ['\x7d']
  | (key, j) :: ms =>
    ',' :: lineBreak (depth + 1) ++ renderString key ++ ':' :: ' ' ::
      renderPretty (depth + 1) j ++ renderPrettyMembers depth ms

end

/-- The text of a value with line breaks and an indentation of two spaces. -/
def pretty (j : Json) : String := String.ofList (j.renderPretty 0)

end Pathwise.Json
