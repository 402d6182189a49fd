import Pathwise.Keyed
import Pathwise.Value.Class

namespace Pathwise

/-- `left kind right`. -/
structure Relation where
  kind : Relation.Kind
  left : Value
  right : Value
  deriving DecidableEq, Repr

namespace Relation

def toValue (r : Relation) : Value := .relational r.kind r.left r.right

theorem toValue_inj {r s : Relation} (h : r.toValue = s.toValue) : r = s := by
  cases r; cases s; cases h; rfl

instance : Ord Relation := ⟨compareOn toValue⟩

instance : Std.TransOrd Relation := inferInstanceAs (Std.TransCmp (compareOn toValue))

instance : Std.LawfulEqOrd Relation where
  eq_of_compare h := toValue_inj (Value.order_eq_iff.1 h)

def text (r : Relation) : String := r.toValue.text

def inverse (r : Relation) : Relation := { r with kind := r.kind.inverse }

/-- The same fact with the smaller operand first, where the operands may be exchanged. -/
def oriented (r : Relation) : Relation :=
  if r.kind.isCommutative && Value.order r.right r.left == .lt then ⟨r.kind, r.right, r.left⟩ else r

/-- The representative of the facts equivalent to this one. -/
def normal (r : Relation) : Relation := oriented ⟨r.kind, r.left.normal, r.right.normal⟩

theorem toValue_oriented (r : Relation) :
    r.oriented.toValue = Value.oriented r.kind r.left r.right := by
  unfold oriented Value.oriented
  split <;> rfl

theorem toValue_normal (r : Relation) : r.normal.toValue = r.toValue.normal :=
  toValue_oriented _

instance : Setoid Relation where
  r r s := r.normal = s.normal
  iseqv := ⟨fun _ => rfl, Eq.symm, Eq.trans⟩

theorem equiv_iff {r s : Relation} : r ≈ s ↔ r.normal = s.normal := Iff.rfl

theorem toValue_equiv_iff {r s : Relation} : r.toValue ≈ s.toValue ↔ r ≈ s := by
  rw [Value.equiv_iff, ← toValue_normal, ← toValue_normal]
  exact ⟨toValue_inj, congrArg toValue⟩

instance (r s : Relation) : Decidable (r ≈ s) :=
  decidable_of_iff (r.toValue ≈ s.toValue) toValue_equiv_iff

def isReflexive (r : Relation) : Bool := decide (r.left ≈ r.right)

def hasOperand (r : Relation) (v : Value) : Bool := decide (r.left ≈ v) || decide (r.right ≈ v)

/-- Both relations are about the same two values. -/
def sameOperands (r s : Relation) : Bool :=
  (decide (r.left ≈ s.left) && decide (r.right ≈ s.right)) ||
    (decide (r.left ≈ s.right) && decide (r.right ≈ s.left))

end Relation

/-- A set of relations, with one representative of each class: the last one inserted. -/
abbrev Relations := Keyed (fun r : Relation => r.toValue.toClass)

namespace Relations

def has (known : Relations) (r : Relation) : Bool := known.contains r.toValue.toClass

end Relations

/-- What is known about a relation. -/
inductive Resolution where
  | fulfilled
  | unfulfilled
  | undetermined
  deriving DecidableEq, Repr

namespace Resolution

def isDetermined : Resolution → Bool
  | undetermined => false
  | _ => true

end Resolution

namespace Relation

/-- Which ways of comparing `left` with `right` by identity a kind allows. Equality of values says
nothing about identity. -/
def Kind.admits? : Kind → Option (Ordering → Bool)
  | equal => some (· == .eq)
  | notEqual => some (· != .eq)
  | greaterOrEqual => some Ordering.isGE
  | lessThan => some Ordering.isLT
  | valueEqual | valueNotEqual => none

/-- What a fact of kind `known` says about one of kind `checked` over the same operands, which the
second names in the opposite order if `swapped`. -/
def Kind.resolve (known checked : Kind) (swapped : Bool) : Resolution :=
  match known.admits?, checked.admits? with
  | some f, some g =>
    let agrees := fun o => g (if swapped then Ordering.swap o else o)
    let orderings := [Ordering.lt, .eq, .gt].filter f
    if orderings.all agrees then .fulfilled
    else if orderings.any agrees then .undetermined
    else .unfulfilled
  | _, _ =>
    match known, checked with
    | equal, valueEqual | valueNotEqual, notEqual => .fulfilled
    | equal, valueNotEqual | valueNotEqual, equal => .unfulfilled
    | _, _ => .undetermined

/-- What `r` says about `checked`. -/
def implies (r checked : Relation) : Resolution :=
  if r ≈ checked then .fulfilled
  else if r.inverse ≈ checked then .unfulfilled
  else if r.sameOperands checked then r.kind.resolve checked.kind (!decide (r.left ≈ checked.left))
  else .undetermined

/-- Decides `r` by the first of the known relations that says something about it. -/
def resolve (r : Relation) (known : Relations) : Resolution :=
  if r.isReflexive then
    match r.kind with
    | .equal | .greaterOrEqual | .valueEqual => .fulfilled
    | .notEqual | .lessThan | .valueNotEqual => .unfulfilled
  else
    ((known.toList.map fun s => s.implies r).find? Resolution.isDetermined).getD .undetermined

/-- `a >= b` and `b >= a` make `a == b`. -/
def simplify? (r s : Relation) : Option Relation :=
  if r.kind = .greaterOrEqual ∧ s.kind = .greaterOrEqual ∧ r.sameOperands s ∧ ¬ r ≈ s then
    some ⟨.equal, r.left, r.right⟩
  else none

/-- `s` with the operand it shares with the equality `r` replaced by the other side of `r`. -/
def substitute (r s : Relation) : Relation :=
  let other := if s.hasOperand r.left then r.right else r.left
  if r.hasOperand s.left then { s with left := other } else { s with right := other }

/-- What follows from `r` and `s`, reading `r` first. -/
def chain? (r s : Relation) : Option Relation :=
  match r.kind, s.kind with
  | .valueEqual, .equal => none
  | .equal, _ | .valueEqual, _ => some (r.substitute s)
  | .lessThan, .lessThan =>
    -- a < x and x < b, or x < a and b < x
    if r.right ≈ s.left then some ⟨.lessThan, r.left, s.right⟩
    else if r.left ≈ s.right then some ⟨.lessThan, s.left, r.right⟩
    else none
  | .lessThan, .greaterOrEqual =>
    -- a < x and b >= x, or x < a and x >= b
    if r.right ≈ s.right then some ⟨.lessThan, r.left, s.left⟩
    else if r.left ≈ s.left then some ⟨.lessThan, s.right, r.right⟩
    else none
  | .greaterOrEqual, .greaterOrEqual =>
    -- a >= x and x >= b
    if r.right ≈ s.left then some ⟨.greaterOrEqual, r.left, s.right⟩ else none
  | _, _ => none

/-- Whether two relations about different pairs of values share one operand. -/
def overlaps (r s : Relation) : Bool :=
  !r.isReflexive && !s.isReflexive && (r.hasOperand s.left || r.hasOperand s.right) &&
    !r.sameOperands s

/-- The relation that follows from `r` and `s` together, if there is one. -/
def deduce? (r s : Relation) : Option Relation :=
  r.simplify? s <|> if r.overlaps s then r.chain? s <|> s.chain? r else none

end Relation

end Pathwise
