import Mathlib.Logic.Relation
import Pathwise.Proofs.Congruence

namespace Pathwise

namespace Value

variable {v w : Value}

/-- The operands of one commutative relation are exchanged, at any depth. -/
inductive Exchange : Value → Value → Prop
  | operands {k l r} : k ∈ [Relation.Kind.equal, .notEqual, .valueEqual, .valueNotEqual] →
      Exchange (relational k l r) (relational k r l)
  | not {id v w} : Exchange v w → Exchange (not id v) (not id w)
  | binaryLeft {id op l m r} : Exchange l m → Exchange (binary id op l r) (binary id op m r)
  | binaryRight {id op l r s} : Exchange r s → Exchange (binary id op l r) (binary id op l s)
  | relationalLeft {k l m r} : Exchange l m → Exchange (relational k l r) (relational k m r)
  | relationalRight {k l r s} : Exchange r s → Exchange (relational k l r) (relational k l s)

def Rearranged : Value → Value → Prop := Relation.ReflTransGen Exchange

theorem isCommutative_iff {k : Relation.Kind} :
    k.isCommutative ↔ k ∈ [Relation.Kind.equal, .notEqual, .valueEqual, .valueNotEqual] := by
  cases k <;> decide

theorem Exchange.symm (h : Exchange v w) : Exchange w v := by
  induction h with
  | operands hk => exact .operands hk
  | not _ ih => exact .not ih
  | binaryLeft _ ih => exact .binaryLeft ih
  | binaryRight _ ih => exact .binaryRight ih
  | relationalLeft _ ih => exact .relationalLeft ih
  | relationalRight _ ih => exact .relationalRight ih

theorem Exchange.equiv (h : Exchange v w) : v ≈ w := by
  induction h with
  | operands hk =>
    exact relational_equiv_iff.2 ⟨rfl, .inr ⟨isCommutative_iff.2 hk, Setoid.refl _, Setoid.refl _⟩⟩
  | not _ ih => exact not_equiv_iff.2 ⟨rfl, ih⟩
  | binaryLeft _ ih => exact binary_equiv_iff.2 ⟨rfl, rfl, ih, Setoid.refl _⟩
  | binaryRight _ ih => exact binary_equiv_iff.2 ⟨rfl, rfl, Setoid.refl _, ih⟩
  | relationalLeft _ ih => exact relational_equiv_iff.2 ⟨rfl, .inl ⟨ih, Setoid.refl _⟩⟩
  | relationalRight _ ih => exact relational_equiv_iff.2 ⟨rfl, .inl ⟨Setoid.refl _, ih⟩⟩

theorem Rearranged.symm (h : Rearranged v w) : Rearranged w v := by
  induction h with
  | refl => exact .refl
  | tail _ hstep ih => exact .head hstep.symm ih

theorem rearranged_normal (v : Value) : Rearranged v v.normal := by
  induction v with
  | simple | boolean => exact .refl
  | not id v ih => exact ih.lift (not id) fun _ _ => .not
  | binary id op l r ihl ihr =>
    have hleft : Rearranged (binary id op l r) (binary id op l.normal r) :=
      ihl.lift (binary id op · r) fun _ _ => .binaryLeft
    exact hleft.trans (ihr.lift (binary id op l.normal) fun _ _ => .binaryRight)
  | relational k l r ihl ihr =>
    have hleft : Rearranged (relational k l r) (relational k l.normal r) :=
      ihl.lift (relational k · r) fun _ _ => .relationalLeft
    have hboth : Rearranged (relational k l r) (relational k l.normal r.normal) :=
      hleft.trans (ihr.lift (relational k l.normal) fun _ _ => .relationalRight)
    rcases oriented_eq_or k l.normal r.normal with h | ⟨hk, h⟩
    · rw [normal, h]
      exact hboth
    · rw [normal, h]
      exact hboth.tail (.operands (isCommutative_iff.1 hk))

/-- Values are equivalent just if one can be rearranged into the other. -/
theorem equiv_iff_rearranged : v ≈ w ↔ Rearranged v w := by
  constructor
  · intro h
    have hnormal : Rearranged v w.normal := equiv_iff.1 h ▸ v.rearranged_normal
    exact hnormal.trans w.rearranged_normal.symm
  · intro h
    induction h with
    | refl => exact Setoid.refl v
    | tail _ hstep ih => exact Setoid.trans ih hstep.equiv

def rank : Value → Nat
  | simple _ => 0
  | boolean _ => 1
  | not _ _ => 2
  | binary _ _ _ _ => 3
  | relational _ _ _ => 4

/-- The operands of a relation in the order in which they are compared: those of a commutative one
with the smaller operand first. -/
def sorted (c : Value → Value → Ordering) (k : Relation.Kind) (l r : Value) : Value × Value :=
  if k.isCommutative && c r l == .lt then (r, l) else (l, r)

/-- Values are compared by constructor and then field by field, relations by kind and then by their
sorted operands. -/
structure FieldByField (c : Value → Value → Ordering) : Prop where
  constructor : ∀ {v w}, v.rank ≠ w.rank → c v w = compare v.rank w.rank
  simple : ∀ a b, c (simple a) (simple b) = compare a b
  boolean : ∀ a b, c (boolean a) (boolean b) = compare a b
  not : ∀ a b v w, c (not a v) (not b w) = (compare a b).then (c v w)
  binary : ∀ a b o p l r m s, c (binary a o l r) (binary b p m s) =
    (compare a b).then ((compare o p).then ((c l m).then (c r s)))
  relational : ∀ k j l r m s, c (relational k l r) (relational j m s) =
    (compare k j).then
      ((c (sorted c k l r).1 (sorted c j m s).1).then (c (sorted c k l r).2 (sorted c j m s).2))

theorem normal_relational (k : Relation.Kind) (l r : Value) :
    (relational k l r).normal =
      relational k (sorted cmp k l r).1.normal (sorted cmp k l r).2.normal := by
  rw [normal, oriented, sorted, cmp_eq_order]
  split <;> rfl

theorem fieldByField_cmp : FieldByField cmp where
  constructor {v w} h := by cases v <;> cases w <;> first | rfl | exact absurd rfl h
  simple _ _ := by rw [cmp]
  boolean _ _ := by rw [cmp]
  not _ _ _ _ := by rw [cmp]
  binary _ _ _ _ _ _ _ _ := by rw [cmp]
  relational k j l r m s := by
    rw [cmp_eq_order, normal_relational, normal_relational, order, ← cmp_eq_order, ← cmp_eq_order]

theorem sorted_mem (c : Value → Value → Ordering) (k : Relation.Kind) (l r : Value) :
    sorted c k l r = (l, r) ∨ sorted c k l r = (r, l) := by
  unfold sorted
  split
  · exact .inr rfl
  · exact .inl rfl

/-- There is only one way to compare values like this. -/
theorem FieldByField.eq_cmp {c : Value → Value → Ordering} (hc : FieldByField c) : c = cmp := by
  -- by induction on a bound on both trees: sorting compares two operands of one relation
  have hbound : ∀ n v w, v.size ≤ n → w.size ≤ n → c v w = cmp v w := by
    intro n
    induction n with
    | zero => exact fun v _ hv => absurd hv (by cases v <;> simp [size])
    | succ n ih =>
      intro v w hv hw
      have hother (h : v.rank ≠ w.rank) : c v w = cmp v w :=
        (hc.constructor h).trans (fieldByField_cmp.constructor h).symm
      cases v <;> cases w <;> simp only [size] at hv hw <;>
        try exact hother (Nat.ne_of_beq_eq_false rfl)
      case simple.simple => rw [hc.simple, cmp]
      case boolean.boolean => rw [hc.boolean, cmp]
      case not.not => rw [hc.not, cmp, ih _ _ (by omega) (by omega)]
      case binary.binary =>
        rw [hc.binary, cmp, ih _ _ (by omega) (by omega), ih _ _ (by omega) (by omega)]
      case relational.relational k l r j m s =>
        have hl : sorted c k l r = sorted cmp k l r := by
          rw [sorted, sorted, ih r l (by omega) (by omega)]
        have hm : sorted c j m s = sorted cmp j m s := by
          rw [sorted, sorted, ih s m (by omega) (by omega)]
        rw [hc.relational, fieldByField_cmp.relational, hl, hm]
        rcases sorted_mem cmp k l r with hl | hl <;> rcases sorted_mem cmp j m s with hm | hm <;>
          rw [hl, hm] <;> dsimp only <;>
          rw [ih _ _ (by omega) (by omega), ih _ _ (by omega) (by omega)]
  funext v w
  exact hbound _ v w (Nat.le_max_left _ _) (Nat.le_max_right _ _)

end Value

/-- `c` orders its arguments totally, and `same` are those that it does not tell apart. -/
structure OrdersUpTo {α : Type} (same : α → α → Prop) (c : α → α → Ordering) : Prop where
  refl : ∀ a, c a a = .eq
  antisymm : ∀ {a b}, (c a b).isLE → (c b a).isLE → c a b = .eq
  trans : ∀ {a b d}, (c a b).isLE → (c b d).isLE → (c a d).isLE
  total : ∀ a b, (c a b).isLE ∨ (c b a).isLE
  swap : ∀ a b, c a b = (c b a).swap
  eq_iff : ∀ {a b}, c a b = .eq ↔ same a b

theorem OrdersUpTo.comap {α β : Type} {same : β → β → Prop} {c : β → β → Ordering}
    (h : OrdersUpTo same c) (f : α → β) :
    OrdersUpTo (fun a b => same (f a) (f b)) (fun a b => c (f a) (f b)) where
  refl _ := h.refl _
  antisymm := h.antisymm
  trans := h.trans
  total _ _ := h.total _ _
  swap _ _ := h.swap _ _
  eq_iff := h.eq_iff

namespace Value

theorem cmp_swap (v w : Value) : cmp v w = (cmp w v).swap := by
  rw [cmp_eq_order, cmp_eq_order, order_swap]

theorem ordersUpTo_cmp : OrdersUpTo Rearranged cmp where
  refl v := cmp_eq_iff.2 (Setoid.refl v)
  antisymm {v w} hvw hwv := by
    rw [cmp_swap w v] at hwv
    cases h : cmp v w <;> simp_all
  trans := by
    intro u v w
    simp only [cmp_eq_order]
    exact order_isLE_trans
  total v w := by
    rw [cmp_swap w v]
    cases cmp v w <;> simp
  swap := cmp_swap
  eq_iff := cmp_eq_iff.trans equiv_iff_rearranged

end Value

/-- What is built from the same parts is the same, and so are inverses; the same values have the same
parts. -/
structure Congruence (same : Value → Value → Prop) : Prop where
  not : ∀ {id v w}, same v w → same (.not id v) (.not id w)
  binary : ∀ {id op l m r s}, same l m → same r s → same (.binary id op l r) (.binary id op m s)
  relational : ∀ {k l m r s}, same l m → same r s → same (.relational k l r) (.relational k m s)
  inverse : ∀ {r s : Relation}, same r.toValue s.toValue → same r.inverse.toValue s.inverse.toValue
  references : ∀ {v w u x}, same v w → same u x → v.references u = w.references x

theorem congruence_equiv : Congruence (· ≈ ·) where
  not h := Value.not_equiv_iff.2 ⟨rfl, h⟩
  binary hl hr := Value.binary_equiv_iff.2 ⟨rfl, rfl, hl, hr⟩
  relational hl hr := Value.relational_equiv_iff.2 ⟨rfl, .inl ⟨hl, hr⟩⟩
  inverse h := Relation.toValue_equiv_iff.2 (Relation.inverse_equiv (Relation.toValue_equiv_iff.1 h))
  references hv hu := (Value.references_of_equiv hv _).trans (Value.references_congr hu _)

/-- Collections are kept in the order of the one comparison that goes field by field, with the
operands of commutative relations sorted. It is a total order of values and of relations, at any
depth. Those are equal in it that can be rearranged into one another, and this equality passes on to
what is built from equal parts. -/
theorem Value.cmp_orders :
    (∀ v w : Value, compare v.toClass w.toClass = cmp v w) ∧
    (∀ c, FieldByField c ↔ c = cmp) ∧
    OrdersUpTo Rearranged cmp ∧
    OrdersUpTo (fun r s : Relation => Rearranged r.toValue s.toValue)
      (fun r s => cmp r.toValue s.toValue) ∧
    (∀ v w, cmp v w = .eq ↔ v ≈ w) ∧
    (∀ r s : Relation, cmp r.toValue s.toValue = .eq ↔ r ≈ s) ∧
    Congruence fun v w => cmp v w = .eq := by
  have hequal : (fun v w => cmp v w = .eq) = (· ≈ · : Value → Value → Prop) := by
    funext v w
    exact propext cmp_eq_iff
  refine ⟨fun _ _ => rfl, fun c => ⟨FieldByField.eq_cmp, fun h => h ▸ fieldByField_cmp⟩,
    ordersUpTo_cmp, ordersUpTo_cmp.comap Relation.toValue, fun _ _ => cmp_eq_iff, ?_, ?_⟩
  · exact fun r s => cmp_eq_iff.trans Relation.toValue_equiv_iff
  · rw [hequal]
    exact congruence_equiv

end Pathwise
