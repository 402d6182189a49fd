import Pathwise.Relation

namespace Pathwise

inductive Datum where
  | null
  | bool (b : Bool)
  | int (i : Int)
  deriving DecidableEq, Repr

namespace Datum

def int? : Datum → Option Int
  | int i => some i
  | _ => none

def bool? : Datum → Option Bool
  | bool b => some b
  | _ => none

theorem bind_int?_eq_some {α : Type} {d? : Option Datum} {f : Int → Option α} {x : α} :
    (d?.bind fun d => d.int?.bind f) = some x ↔ ∃ i, d? = some (int i) ∧ f i = some x := by
  rcases d? with _ | _ | _ | _ <;> simp [int?]

theorem bind_bool?_eq_some {α : Type} {d? : Option Datum} {f : Bool → Option α} {x : α} :
    (d?.bind fun d => d.bool?.bind f) = some x ↔ ∃ b, d? = some (bool b) ∧ f b = some x := by
  rcases d? with _ | _ | _ | _ <;> simp [bool?]

end Datum

abbrev Valuation := Nat → Datum

namespace Valuation

/-- What a simple value with this id stands for; the literal constants are what they are. -/
def read (ρ : Valuation) : Nat → Datum
  | 0 => .null
  | 1 => .bool true
  | 2 => .bool false
  | id => ρ id

theorem read_of_le {ρ : Valuation} {id : Nat} (h : Value.firstFreeId ≤ id) : ρ.read id = ρ id := by
  match id, h with
  | _ + 3, _ => rfl

end Valuation

/-- Whether `a k b` for integers. What `equals` answers is not known of integers. -/
def Relation.Kind.decide? (k : Relation.Kind) (a b : Int) : Option Bool :=
  match k with
  | .equal => some (a = b)
  | .notEqual => some (a ≠ b)
  | .greaterOrEqual => some (a ≥ b)
  | .lessThan => some (a < b)
  | .valueEqual | .valueNotEqual => none

theorem Relation.Kind.decide?_comm {k : Relation.Kind} (h : k.isCommutative) (a b : Int) :
    k.decide? a b = k.decide? b a := by
  cases k with
  | equal => simp only [decide?, eq_comm]
  | notEqual => simp only [decide?, ne_comm]
  | greaterOrEqual | lessThan => contradiction
  | valueEqual | valueNotEqual => rfl

theorem Relation.Kind.decide?_inverse (k : Relation.Kind) (a b : Int) :
    k.inverse.decide? a b = (k.decide? a b).map (!·) := by
  cases k with
  | equal | notEqual => simp [decide?, inverse]
  | greaterOrEqual =>
    simp only [decide?, inverse, Option.map_some, ← decide_not, ge_iff_le, Int.not_le]
  | lessThan => simp only [decide?, inverse, Option.map_some, ← decide_not, ge_iff_le, Int.not_lt]
  | valueEqual | valueNotEqual => rfl

def LogicalOp.eval : LogicalOp → Bool → Bool → Bool
  | and, a, b => a && b
  | or, a, b => a || b
  | xor, a, b => a ^^ b

namespace Value

def eval (ρ : Valuation) : Value → Option Datum
  | simple id => some (ρ.read id)
  | boolean id => some (ρ id)
  | not _ v => do
    let b ← (← v.eval ρ).bool?
    return .bool !b
  | binary _ op l r => do
    let a ← (← l.eval ρ).bool?
    let b ← (← r.eval ρ).bool?
    return .bool (op.eval a b)
  | relational k l r => do
    let a ← (← l.eval ρ).int?
    let b ← (← r.eval ρ).int?
    return .bool (← k.decide? a b)

variable {ρ : Valuation}

theorem eval_not_eq_some {id : Nat} {v : Value} {d : Datum} :
    (not id v).eval ρ = some d ↔ ∃ b, v.eval ρ = some (.bool b) ∧ .bool (!b) = d := by
  simp only [eval, Option.bind_eq_bind, Datum.bind_bool?_eq_some, Option.pure_def,
    Option.some.injEq]

theorem eval_binary_eq_some {id : Nat} {op : LogicalOp} {l r : Value} {d : Datum} :
    (binary id op l r).eval ρ = some d ↔
      ∃ a b, l.eval ρ = some (.bool a) ∧ r.eval ρ = some (.bool b) ∧ .bool (op.eval a b) = d := by
  simp only [eval, Option.bind_eq_bind, Datum.bind_bool?_eq_some, Option.pure_def,
    Option.some.injEq, exists_and_left]

theorem eval_relational_eq_some {k : Relation.Kind} {l r : Value} {d : Datum} :
    (relational k l r).eval ρ = some d ↔
      ∃ a b c, l.eval ρ = some (.int a) ∧ r.eval ρ = some (.int b) ∧ k.decide? a b = some c ∧
        .bool c = d := by
  simp only [eval, Option.bind_eq_bind, Datum.bind_int?_eq_some]
  simp only [Option.bind_eq_some_iff, Option.pure_def, Option.some.injEq, exists_and_left]

theorem eval_relational_comm {k : Relation.Kind} (h : k.isCommutative) (l r : Value) :
    (relational k l r).eval ρ = (relational k r l).eval ρ := by
  apply Option.ext
  intro d
  rw [eval_relational_eq_some, eval_relational_eq_some]
  constructor
  · rintro ⟨a, b, c, hl, hr, hc, hd⟩
    exact ⟨b, a, c, hr, hl, Relation.Kind.decide?_comm h a b ▸ hc, hd⟩
  · rintro ⟨a, b, c, hl, hr, hc, hd⟩
    exact ⟨b, a, c, hr, hl, Relation.Kind.decide?_comm h a b ▸ hc, hd⟩

theorem eval_normal (v : Value) : v.normal.eval ρ = v.eval ρ := by
  induction v with
  | simple | boolean => rfl
  | not _ _ ih => simp only [normal, eval, ih]
  | binary _ _ _ _ ihl ihr => simp only [normal, eval, ihl, ihr]
  | relational k l r ihl ihr =>
    have hsame : (relational k l.normal r.normal).eval ρ = (relational k l r).eval ρ := by
      simp only [eval, ihl, ihr]
    rcases oriented_eq_or k l.normal r.normal with h | ⟨hk, h⟩
    · rw [normal, h, hsame]
    · rw [normal, h, eval_relational_comm hk, hsame]

/-- Equivalent values mean the same. -/
theorem eval_congr {v w : Value} (h : v ≈ w) : v.eval ρ = w.eval ρ := by
  rw [← eval_normal v, equiv_iff.1 h, eval_normal]

end Value

namespace Relation

variable {ρ : Valuation}

def Holds (ρ : Valuation) (r : Relation) : Prop := r.toValue.eval ρ = some (.bool true)

theorem holds_iff {r : Relation} :
    r.Holds ρ ↔ ∃ a b, r.left.eval ρ = some (.int a) ∧ r.right.eval ρ = some (.int b) ∧
      r.kind.decide? a b = some true := by
  simp only [Holds, toValue, Value.eval_relational_eq_some, Datum.bool.injEq]
  constructor
  · rintro ⟨a, b, c, hl, hr, hc, rfl⟩
    exact ⟨a, b, hl, hr, hc⟩
  · rintro ⟨a, b, hl, hr, hc⟩
    exact ⟨a, b, true, hl, hr, hc, rfl⟩

theorem holds_congr {r s : Relation} (h : r ≈ s) : r.Holds ρ ↔ s.Holds ρ := by
  rw [Holds, Holds, Value.eval_congr (toValue_equiv_iff.2 h)]

theorem holds_of_eval {r : Relation} {b : Bool} (h : r.toValue.eval ρ = some (.bool b)) :
    (if b then r else r.inverse).Holds ρ := by
  cases b with
  | true => exact h
  | false =>
    obtain ⟨a, b, c, hl, hr, hc, hd⟩ := Value.eval_relational_eq_some.1 h
    cases hd
    refine holds_iff.2 ⟨a, b, hl, hr, ?_⟩
    change r.kind.inverse.decide? a b = some true
    rw [Kind.decide?_inverse, hc]
    rfl

theorem not_holds_inverse {r : Relation} (h : r.Holds ρ) : ¬ r.inverse.Holds ρ := by
  intro hi
  obtain ⟨a, b, hl, hr, hc⟩ := holds_iff.1 h
  obtain ⟨a', b', hl', hr', hc'⟩ := holds_iff.1 hi
  cases hl.symm.trans hl'
  cases hr.symm.trans hr'
  have hc'' : r.kind.inverse.decide? a b = some true := hc'
  rw [Kind.decide?_inverse, hc] at hc''
  contradiction

end Relation

end Pathwise
