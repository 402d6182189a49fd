namespace Pathwise

/-- What a relation says of its operands. `equal` and the two orderings are about identity;
`valueEqual` and `valueNotEqual` are what `equals` answers. -/
inductive Relation.Kind where
  | equal
  | notEqual
  | greaterOrEqual
  | lessThan
  | valueEqual
  | valueNotEqual
  deriving DecidableEq, Repr

namespace Relation.Kind

/-- The kind that holds exactly when this one does not. -/
def inverse : Kind → Kind
  | equal => notEqual
  | notEqual => equal
  | greaterOrEqual => lessThan
  | lessThan => greaterOrEqual
  | valueEqual => valueNotEqual
  | valueNotEqual => valueEqual

@[simp] theorem inverse_inverse (k : Kind) : k.inverse.inverse = k := by cases k <;> rfl

def isCommutative : Kind → Bool
  | greaterOrEqual | lessThan => false
  | _ => true

def isEquality : Kind → Bool
  | equal | valueEqual => true
  | _ => false

def operator : Kind → String
  | equal => "=="
  | notEqual => "!="
  | greaterOrEqual => ">="
  | lessThan => "<"
  | valueEqual => ".EQ."
  | valueNotEqual => ".NE."

def rank : Kind → Nat
  | equal => 0
  | notEqual => 1
  | greaterOrEqual => 2
  | lessThan => 3
  | valueEqual => 4
  | valueNotEqual => 5

theorem rank_inj {j k : Kind} (h : j.rank = k.rank) : j = k := by
  cases j <;> cases k <;> first | rfl | contradiction

instance : Ord Kind := ⟨compareOn rank⟩

instance : Std.TransOrd Kind := inferInstanceAs (Std.TransCmp (compareOn rank))

instance : Std.LawfulEqOrd Kind where
  eq_of_compare h := rank_inj (Nat.compare_eq_eq.1 h)

end Relation.Kind

end Pathwise
