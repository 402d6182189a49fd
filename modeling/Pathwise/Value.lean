import Pathwise.Relation.Kind

namespace Pathwise

inductive LogicalOp where
  | and
  | or
  | xor
  deriving DecidableEq, Repr

namespace LogicalOp

def operator : LogicalOp → String
  | and => "&"
  | or => "|"
  | xor => "^"

def rank : LogicalOp → Nat
  | and => 0
  | or => 1
  | xor => 2

theorem rank_inj {o p : LogicalOp} (h : o.rank = p.rank) : o = p := by
  cases o <;> cases p <;> first | rfl | contradiction

instance : Ord LogicalOp := ⟨compareOn rank⟩

instance : Std.TransOrd LogicalOp := inferInstanceAs (Std.TransCmp (compareOn rank))

instance : Std.LawfulEqOrd LogicalOp where
  eq_of_compare h := rank_inj (Nat.compare_eq_eq.1 h)

end LogicalOp

/-- A symbolic value: an opaque stand-in for what a run computes, or one that logical operators and
comparisons build from others. All but relations carry an id of their own. -/
inductive Value where
  | simple (id : Nat)
  /-- A value of boxed boolean type: a boolean that may also be null. -/
  | boolean (id : Nat)
  | not (id : Nat) (operand : Value)
  | binary (id : Nat) (op : LogicalOp) (left right : Value)
  | relational (kind : Relation.Kind) (left right : Value)
  deriving DecidableEq, Repr

namespace Value

def null : Value := simple 0

def true : Value := simple 1

def false : Value := simple 2

/-- Ids below this one belong to the literal constants. -/
def firstFreeId : Nat := 3

def isConstant : Value → Bool
  | simple id => id < firstFreeId
  | _ => .false

def operands : Value → List Value
  | simple _ | boolean _ => []
  | not _ v => [v]
  | binary _ _ l r => [l, r]
  | relational _ l r => [l, r]

/-- Whether the value has no operands. -/
def isLeaf : Value → Bool
  | simple _ | boolean _ => .true
  | _ => .false

/-- Compares two trees constructor by constructor and field by field. -/
def order : Value → Value → Ordering
  | simple a, simple b => compare a b
  | simple _, _ => .lt
  | _, simple _ => .gt
  | boolean a, boolean b => compare a b
  | boolean _, _ => .lt
  | _, boolean _ => .gt
  | not a v, not b w => (compare a b).then (order v w)
  | not _ _, _ => .lt
  | _, not _ _ => .gt
  | binary a o l r, binary b p m s =>
    (compare a b).then ((compare o p).then ((order l m).then (order r s)))
  | binary _ _ _ _, _ => .lt
  | _, binary _ _ _ _ => .gt
  | relational k l r, relational j m s => (compare k j).then ((order l m).then (order r s))

instance : Ord Value := ⟨order⟩

theorem order_eq_iff {v w : Value} : order v w = .eq ↔ v = w := by
  induction v generalizing w <;> cases w <;> simp_all [order, Ordering.then_eq_eq]

theorem order_swap (v w : Value) : order v w = (order w v).swap := by
  induction v generalizing w <;> cases w <;>
    simp only [order, Ordering.swap_then, Ordering.swap_lt, Ordering.swap_gt]
  case simple.simple => exact Std.OrientedOrd.eq_swap
  case boolean.boolean => exact Std.OrientedOrd.eq_swap
  case not.not ih _ _ => rw [← ih, ← Std.OrientedOrd.eq_swap]
  case binary.binary ihl ihr _ _ _ _ =>
    rw [← ihl, ← ihr, ← Std.OrientedOrd.eq_swap, ← Std.OrientedOrd.eq_swap]
  case relational.relational ihl ihr _ _ _ => rw [← ihl, ← ihr, ← Std.OrientedOrd.eq_swap]

/-- A comparison of two fields in turn is transitive where both are and the first tells all of its
values apart. -/
theorem then_isLE_trans {α : Type} {f : α → α → Ordering} {a b c : α} {p q r : Ordering}
    (heq : ∀ x y, f x y = .eq ↔ x = y) (hswap : ∀ x y, f x y = (f y x).swap)
    (htrans : (f a b).isLE → (f b c).isLE → (f a c).isLE)
    (hrest : p.isLE → q.isLE → r.isLE) (hab : ((f a b).then p).isLE)
    (hbc : ((f b c).then q).isLE) : ((f a c).then r).isLE := by
  have hac := heq a c
  have hab' := heq a b
  have hbc' := heq b c
  have hba := hswap b a
  have hself := (heq b b).2 rfl
  cases h₁ : f a b <;> cases h₂ : f b c <;> cases h₃ : f a c <;>
    grind [Ordering.then, Ordering.isLE, Ordering.swap_lt, Ordering.swap_eq, Ordering.swap_gt]

theorem order_isLE_trans {v w x : Value} (hvw : (order v w).isLE) (hwx : (order w x).isLE) :
    (order v x).isLE := by
  have hn : ∀ a b : Nat, compare a b = .eq ↔ a = b := fun _ _ => Nat.compare_eq_eq
  have ho : ∀ a b : LogicalOp, compare a b = .eq ↔ a = b :=
    fun _ _ => Std.LawfulEqCmp.compare_eq_iff_eq
  have hk : ∀ a b : Relation.Kind, compare a b = .eq ↔ a = b :=
    fun _ _ => Std.LawfulEqCmp.compare_eq_iff_eq
  induction v generalizing w x <;> cases w <;> cases x <;> simp only [order] at hvw hwx ⊢ <;>
    try first | contradiction | rfl
  case simple.simple.simple => exact Std.TransCmp.isLE_trans hvw hwx
  case boolean.boolean.boolean => exact Std.TransCmp.isLE_trans hvw hwx
  case not.not.not ih _ _ _ _ =>
    exact then_isLE_trans hn (fun _ _ => Std.OrientedOrd.eq_swap) Std.TransCmp.isLE_trans ih hvw hwx
  case binary.binary.binary ihl ihr _ _ _ _ _ _ _ _ =>
    refine then_isLE_trans hn (fun _ _ => Std.OrientedOrd.eq_swap) Std.TransCmp.isLE_trans ?_
      hvw hwx
    refine then_isLE_trans ho (fun _ _ => Std.OrientedOrd.eq_swap) Std.TransCmp.isLE_trans ?_
    exact then_isLE_trans (fun _ _ => order_eq_iff) order_swap ihl ihr
  case relational.relational.relational ihl ihr _ _ _ _ _ _ =>
    refine then_isLE_trans hk (fun _ _ => Std.OrientedOrd.eq_swap) Std.TransCmp.isLE_trans ?_
      hvw hwx
    exact then_isLE_trans (fun _ _ => order_eq_iff) order_swap ihl ihr

instance : Std.TransOrd Value where
  eq_swap := order_swap _ _
  isLE_trans := order_isLE_trans

instance : Std.LawfulEqOrd Value where
  eq_of_compare := order_eq_iff.1

def text : Value → String
  | simple 0 => "SV_NULL"
  | simple 1 => "SV_TRUE"
  | simple 2 => "SV_FALSE"
  | simple id | boolean id => "SV_" ++ toString id
  | not _ v => "!" ++ v.text
  | binary _ op l r => "(" ++ l.text ++ op.operator ++ r.text ++ ")"
  | relational k l r => l.text ++ k.operator ++ r.text

def size : Value → Nat
  | simple _ | boolean _ => 1
  | not _ v => v.size + 1
  | binary _ _ l r => l.size + r.size + 1
  | relational _ l r => l.size + r.size + 1

end Value

/-- Hands out ids that no value has yet. Ids do not wrap: a supply of 32-bit words hands out the same
ones as long as `next` stays below `2 ^ 32`. -/
structure Supply where
  next : Nat := Value.firstFreeId
  deriving DecidableEq, Repr

namespace Supply

def fresh (s : Supply) : Value × Supply := (.simple s.next, ⟨s.next + 1⟩)

def freshBoolean (s : Supply) : Value × Supply := (.boolean s.next, ⟨s.next + 1⟩)

def not (s : Supply) (v : Value) : Value × Supply := (.not s.next v, ⟨s.next + 1⟩)

def binary (s : Supply) (op : LogicalOp) (l r : Value) : Value × Supply :=
  (.binary s.next op l r, ⟨s.next + 1⟩)

end Supply

end Pathwise
