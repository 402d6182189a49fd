import Pathwise.Json.Number

namespace Pathwise

/-- Objects keep the order and the repetition of their members, and numbers are kept as they are
written, so that nothing of a text is lost but its layout. -/
inductive Json where
  | null
  | bool (b : Bool)
  | number (n : Json.Number)
  | string (s : String)
  | array (items : List Json)
  | object (members : List (String × Json))
  /-- Written correctly, but without a meaning: a string with half of a surrogate pair, or an object
  with such a key. It can be skipped and not be read. -/
  | unreadable

namespace Json

def ofNat (n : Nat) : Json := number (.ofNat n)

def ofInt (i : Int) : Json := number (.ofInt i)

def ofUInt64 (n : UInt64) : Json := ofNat n.toNat

def ofStrings (ss : List String) : Json := array (ss.map string)

/-- The value of an optional part, `null` if it is absent. -/
def ofOption {α : Type} (f : α → Json) : Option α → Json
  | some a => f a
  | none => null

def bool? : Json → Option Bool
  | bool b => some b
  | _ => none

def string? : Json → Option String
  | string s => some s
  | _ => none

def uint64? : Json → Option UInt64
  | number n => n.toUInt64?
  | _ => none

def int64? : Json → Option Int64
  | number n => n.toInt64?
  | _ => none

def float? : Json → Option Float
  | number n => n.toFloat?
  | _ => none

def list? {α : Type} (item? : Json → Option α) : Json → Option (List α)
  | array items => items.mapM item?
  | _ => none

/-- The member with this key, the first one if there are several. -/
def get? (j : Json) (key : String) : Option Json :=
  match j with
  | object members => members.lookup key
  | _ => none

/-- The fields of a record by position, absent where they are missing. A record is an object, or the
array of its fields in order. Other members of an object are skipped, and no field may be given
twice. -/
def fields? (names : List String) : Json → Option (List (Option Json))
  | array items =>
    if items.length ≤ names.length then
      some (items.map some ++ List.replicate (names.length - items.length) none)
    else none
  | object members =>
    let known := members.filter fun m => names.contains m.1
    if (known.map Prod.fst).Nodup then some (names.map fun name => known.lookup name) else none
  | _ => none

/-- The name of a variant and its content. A variant without content is a string, or an object with
the one member `null`; one with content is an object with one member. -/
def variant? : Json → Option (String × Option Json)
  | string name => some (name, none)
  | object [(name, content)] => some (name, some content)
  | _ => none

/-- The name of a variant without content. -/
def unit? (j : Json) : Option String :=
  match j.variant? with
  | some (name, none) | some (name, some null) => some name
  | _ => none

def required {α : Type} (read? : Json → Option α) (field? : Option Json) : Option α :=
  field?.bind read?

def optional {α : Type} (absent : α) (read? : Json → Option α) : Option Json → Option α
  | some j => read? j
  | none => some absent

def tagged (name : String) (content : Json) : Json := object [(name, content)]

end Json

end Pathwise
