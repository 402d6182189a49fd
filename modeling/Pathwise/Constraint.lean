import Pathwise.Keyed
import Pathwise.Relation.Kind

namespace Pathwise

inductive Domain where
  | object
  | boolean
  | custom (id : Nat)
  deriving DecidableEq, Repr

namespace Domain

def rank : Domain → Nat
  | object => 0
  | boolean => 1
  | custom id => id + 2

theorem rank_inj {d e : Domain} (h : d.rank = e.rank) : d = e := by
  cases d <;> cases e <;> simp_all [rank]

instance : Ord Domain := ⟨compareOn rank⟩

instance : Std.TransOrd Domain := inferInstanceAs (Std.TransCmp (compareOn rank))

instance : Std.LawfulEqOrd Domain where
  eq_of_compare h := rank_inj (Nat.compare_eq_eq.1 h)

end Domain

/-- When an operand holds value `source` and a relation of `kind` is asserted, the other operand
gets value `target`. -/
structure CopyRule (n : Nat) where
  kind : Relation.Kind
  source : Fin n
  target : Fin n
  deriving DecidableEq, Repr

/-- A detector's own domain: a closed list of named values and the rules by which relations carry
them over. -/
structure CustomDomain where
  id : Nat
  name : String
  values : List String
  rules : List (CopyRule values.length)
  /-- Whether constraints of this domain are forgotten together with their value. -/
  disposable : Bool
  deriving DecidableEq, Repr

namespace CustomDomain

inductive Item where
  | value (name : String)
  | rule (kind : Relation.Kind) (source target : String)
  deriving DecidableEq, Repr

/-- The values and rules declared so far. -/
structure Draft where
  values : List String := []
  rules : List (CopyRule values.length) := []

/-- A rule between values that are not declared yet is ignored. -/
def Draft.add (d : Draft) : Item → Draft
  | .value name =>
    have h : d.values.length ≤ (d.values ++ [name]).length := by simp
    ⟨d.values ++ [name], d.rules.map fun r => ⟨r.kind, r.source.castLE h, r.target.castLE h⟩⟩
  | .rule kind source target =>
    match d.values.finIdxOf? source, d.values.finIdxOf? target with
    | some i, some j => { d with rules := d.rules ++ [⟨kind, i, j⟩] }
    | _, _ => d

/-- The domain with the declared values and rules. Identity carries every value over unchanged. -/
def ofItems (id : Nat) (name : String) (items : List Item) (disposable : Bool) : CustomDomain :=
  let draft := items.foldl Draft.add {}
  { id, name, disposable
    values := draft.values
    rules := (List.finRange draft.values.length).map (fun i => ⟨.equal, i, i⟩) ++ draft.rules }

/-- The two values of a domain with two values. -/
def first : Fin 2 := 0

def second : Fin 2 := 1

/-- A domain with two values. Identity carries both over unchanged. -/
def ofPair (id : Nat) (name value value' : String) (rules : List (CopyRule 2))
    (disposable : Bool) : CustomDomain where
  id
  name
  values := [value, value']
  rules := ⟨.equal, first, first⟩ :: ⟨.equal, second, second⟩ :: rules
  disposable

def domain (d : CustomDomain) : Domain := .custom d.id

def valueName (d : CustomDomain) (i : Fin d.values.length) : String := d.values.get i

end CustomDomain

inductive Constraint where
  | null
  | notNull
  | truth (b : Bool)
  | custom (d : CustomDomain) (i : Fin d.values.length)
  deriving DecidableEq, Repr

namespace CustomDomain

def constraint? (d : CustomDomain) (i : Nat) : Option Constraint :=
  if h : i < d.values.length then some (.custom d ⟨i, h⟩) else none

/-- The complaint about a value that the domain does not have. -/
def noValueMessage (d : CustomDomain) (i : Nat) : String :=
  "domain " ++ d.name ++ " has no value #" ++ toString i

def constraints (d : CustomDomain) : List Constraint :=
  (List.finRange d.values.length).map (.custom d)

end CustomDomain

namespace Constraint

def domain : Constraint → Domain
  | null | notNull => .object
  | truth _ => .boolean
  | custom d _ => d.domain

def truth? : Constraint → Option Bool
  | truth b => some b
  | _ => none

def isDisposable : Constraint → Bool
  | null | notNull | truth _ => true
  | custom d _ => d.disposable

def text : Constraint → String
  | null => "null"
  | notNull => "not null"
  | truth true => "true"
  | truth false => "false"
  | custom d i => d.valueName i

/-- The text with the name of a custom domain in front. -/
def fullText : Constraint → String
  | custom d i => d.name ++ ":" ++ d.valueName i
  | c => c.text

def index : Constraint → Nat
  | null => 0
  | notNull => 1
  | truth true => 0
  | truth false => 1
  | custom _ i => i.val

/-- Constraints are ordered by domain, then by their place in it. -/
def compare (c d : Constraint) : Ordering :=
  (Ord.compare c.domain d.domain).then (Ord.compare c.index d.index)

/-- What the other operand must hold once a relation of `kind` with an operand that holds this
constraint is asserted, if anything. -/
def copyOver (c : Constraint) (kind : Relation.Kind) : Option Constraint :=
  match c, kind with
  | null, .equal => some null
  | notNull, .equal => some notNull
  -- `a.equals(b)` answers true only where neither side is null
  | null, .valueEqual | notNull, .valueEqual => some notNull
  | null, .notEqual => some notNull
  | null, _ | notNull, _ => none
  | truth b, .equal | truth b, .valueEqual => some (truth b)
  | truth b, .notEqual | truth b, .valueNotEqual => some (truth !b)
  | truth _, .greaterOrEqual | truth _, .lessThan => none
  | custom d i, kind =>
    (d.rules.find? fun r => r.kind = kind ∧ r.source = i).map fun r => custom d r.target

end Constraint

/-- At most one constraint for each domain. -/
abbrev ConstraintSet := Keyed Constraint.domain

namespace ConstraintSet

def get? (s : ConstraintSet) (d : Domain) : Option Constraint := s.find? d

def has (s : ConstraintSet) (c : Constraint) : Bool := s.get? c.domain == some c

def isDisposable (s : ConstraintSet) : Bool := s.toList.all Constraint.isDisposable

end ConstraintSet

end Pathwise
