import Pathwise.Value

namespace Pathwise.Value

/-- The relation `l k r`, with the smaller operand first where the operands may be exchanged. -/
def oriented (k : Relation.Kind) (l r : Value) : Value :=
  if k.isCommutative && order r l == .lt then relational k r l else relational k l r

/-- The tree with the smaller operand of every commutative relation first. -/
def normal : Value → Value
  | simple id => simple id
  | boolean id => boolean id
  | not id v => not id v.normal
  | binary id op l r => binary id op l.normal r.normal
  | relational k l r => oriented k l.normal r.normal

/-- Equality up to exchanging the operands of commutative relations, at any depth. -/
instance : Setoid Value where
  r v w := v.normal = w.normal
  iseqv := ⟨fun _ => rfl, Eq.symm, Eq.trans⟩

theorem equiv_iff {v w : Value} : v ≈ w ↔ v.normal = w.normal := Iff.rfl

theorem oriented_comm {k : Relation.Kind} (h : k.isCommutative) (l r : Value) :
    oriented k l r = oriented k r l := by
  have hswap := order_swap l r
  have heq := order_eq_iff (v := l) (w := r)
  simp only [oriented, h, Bool.true_and]
  cases hlr : order l r <;> cases hrl : order r l <;> simp_all

theorem oriented_eq_or (k : Relation.Kind) (l r : Value) :
    oriented k l r = relational k l r ∨ k.isCommutative ∧ oriented k l r = relational k r l := by
  unfold oriented
  split
  next h => exact .inr ⟨(Bool.and_eq_true _ _ ▸ h).1, rfl⟩
  next => exact .inl rfl

theorem oriented_eq_iff {k j : Relation.Kind} {l r m s : Value} :
    oriented k l r = oriented j m s ↔
      k = j ∧ (l = m ∧ r = s ∨ k.isCommutative ∧ l = s ∧ r = m) := by
  constructor
  · intro h
    rcases oriented_eq_or k l r with hl | ⟨hk, hl⟩ <;>
      rcases oriented_eq_or j m s with hr | ⟨hj, hr⟩ <;>
      rw [hl, hr] at h <;> cases h <;> simp_all
  · rintro ⟨rfl, ⟨rfl, rfl⟩ | ⟨hk, rfl, rfl⟩⟩
    · rfl
    · exact oriented_comm hk _ _

/-- Two relations are equivalent if their operands are, in this order or, where the kind allows it,
in the other. -/
theorem relational_equiv_iff {k j : Relation.Kind} {l r m s : Value} :
    relational k l r ≈ relational j m s ↔
      k = j ∧ (l ≈ m ∧ r ≈ s ∨ k.isCommutative ∧ l ≈ s ∧ r ≈ m) :=
  oriented_eq_iff

theorem not_equiv_iff {a b : Nat} {v w : Value} : not a v ≈ not b w ↔ a = b ∧ v ≈ w := by
  simp only [equiv_iff, normal, not.injEq]

theorem binary_equiv_iff {a b : Nat} {o p : LogicalOp} {l r m s : Value} :
    binary a o l r ≈ binary b p m s ↔ a = b ∧ o = p ∧ l ≈ m ∧ r ≈ s := by
  simp only [equiv_iff, normal, binary.injEq]

/-- Values without operands are equivalent only to themselves. -/
theorem equiv_leaf {v w : Value} (hw : w.isLeaf) : v ≈ w ↔ v = w := by
  rw [equiv_iff]
  cases w with
  | simple | boolean =>
    cases v with
    | relational k l r =>
      rcases oriented_eq_or k l.normal r.normal with h | ⟨_, h⟩ <;> simp [normal, h]
    | _ => simp [normal]
  | not | binary | relational => contradiction

theorem equiv_simple {v : Value} {id : Nat} : v ≈ simple id ↔ v = simple id :=
  equiv_leaf rfl

theorem simple_equiv_simple {i j : Nat} : simple i ≈ simple j ↔ i = j := by
  rw [equiv_simple, simple.injEq]

/-- Compares two trees from the root, up to the first difference. -/
def agrees : Value → Value → Bool
  | simple a, simple b => a == b
  | boolean a, boolean b => a == b
  | not a v, not b w => a == b && v.agrees w
  | binary a o l r, binary b p m s => a == b && (o == p && (l.agrees m && r.agrees s))
  | relational k l r, relational j m s =>
    k == j && (l.agrees m && r.agrees s || k.isCommutative && (l.agrees s && r.agrees m))
  | _, _ => .false

theorem agrees_iff_normal_eq {v w : Value} : v.agrees w ↔ v.normal = w.normal := by
  induction v generalizing w with
  | relational k l r ihl ihr =>
    cases w with
    | relational j m s => simp [agrees, normal, oriented_eq_iff, ihl, ihr]
    | _ => rcases oriented_eq_or k l.normal r.normal with h | ⟨_, h⟩ <;> simp [agrees, normal, h]
  | _ =>
    cases w with
    | relational k m s =>
      rcases oriented_eq_or k m.normal s.normal with h | ⟨_, h⟩ <;> simp [agrees, normal, h]
    | _ => simp_all [agrees, normal]

theorem agrees_iff {v w : Value} : v.agrees w ↔ v ≈ w := agrees_iff_normal_eq

instance (v w : Value) : Decidable (v ≈ w) := decidable_of_iff (v.agrees w) agrees_iff

/-- Whether `other` is this value or one of its operands, at any depth. -/
def references (v other : Value) : Bool :=
  decide (v ≈ other) ||
    match v with
    | simple _ | boolean _ => .false
    | not _ w => w.references other
    | binary _ _ l r => l.references other || r.references other
    | relational _ l r => l.references other || r.references other

end Pathwise.Value
