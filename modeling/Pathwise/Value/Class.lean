import Pathwise.Value.Equivalence

namespace Pathwise.Value

/-- How a value compares with the smaller of two others, if it compares with them like this. -/
def withSmaller : Ordering → Ordering → Ordering
  | .gt, _ | _, .gt => .gt
  | .eq, _ | _, .eq => .eq
  | .lt, .lt => .lt

/-- How a value compares with the larger of two others, if it compares with them like this. -/
def withLarger : Ordering → Ordering → Ordering
  | .lt, _ | _, .lt => .lt
  | .eq, _ | _, .eq => .eq
  | .gt, .gt => .gt

/-- Compares the classes of two values: constructor by constructor and field by field, commutative
relations by the smaller operand and then by the larger one. -/
def cmp : Value → Value → Ordering
  | simple a, simple b => compare a b
  | simple _, _ => .lt
  | _, simple _ => .gt
  | boolean a, boolean b => compare a b
  | boolean _, _ => .lt
  | _, boolean _ => .gt
  | not a v, not b w => (compare a b).then (cmp v w)
  | not _ _, _ => .lt
  | _, not _ _ => .gt
  | binary a o l r, binary b p m s =>
    (compare a b).then ((compare o p).then ((cmp l m).then (cmp r s)))
  | binary _ _ _ _, _ => .lt
  | _, binary _ _ _ _ => .gt
  | relational k l r, relational j m s =>
    (compare k j).then
      (if k.isCommutative then
        -- at most one of the comparisons of an operand with another goes below the surface
        if (l.isLeaf || r.isLeaf) && (m.isLeaf || s.isLeaf) then
          if cmp r l == .lt then
            (withSmaller (cmp r m) (cmp r s)).then (withLarger (cmp l m) (cmp l s))
          else (withSmaller (cmp l m) (cmp l s)).then (withLarger (cmp r m) (cmp r s))
        else order (oriented k l.normal r.normal) (oriented j m.normal s.normal)
      else (cmp l m).then (cmp r s))

theorem order_lt_trans {v w x : Value} (hvw : order v w = .lt) (hwx : order w x = .lt) :
    order v x = .lt :=
  show compare v x = .lt from Std.TransCmp.lt_trans (show compare v w = .lt from hvw) hwx

theorem order_ne_lt_of_lt {v w : Value} (h : order v w = .lt) : order w v ≠ .lt := by
  rw [order_swap, h]
  decide

theorem eq_withSmaller {v m s : Value} (h : order s m ≠ .lt) :
    order v m = withSmaller (order v m) (order v s) := by
  cases hvm : order v m with
  | gt => rfl
  | eq =>
    obtain rfl := order_eq_iff.1 hvm
    rw [order_swap] at h
    cases hvs : order v s <;> simp_all [withSmaller]
  | lt =>
    have hvs : order v s = .lt := by
      cases hms : order m s with
      | lt => exact order_lt_trans hvm hms
      | eq => rwa [order_eq_iff.1 hms] at hvm
      | gt => exact absurd (by rw [order_swap, hms]; rfl) h
    rw [hvs]
    rfl

theorem eq_withLarger {v m s : Value} (h : order s m ≠ .lt) :
    order v s = withLarger (order v m) (order v s) := by
  cases hvm : order v m with
  | lt =>
    have hvs : order v s = .lt := by
      cases hms : order m s with
      | lt => exact order_lt_trans hvm hms
      | eq => rwa [order_eq_iff.1 hms] at hvm
      | gt => exact absurd (by rw [order_swap, hms]; rfl) h
    rw [hvs]
    rfl
  | eq =>
    obtain rfl := order_eq_iff.1 hvm
    rw [order_swap] at h
    cases hvs : order v s <;> simp_all [withLarger]
  | gt => cases order v s <;> rfl

theorem withSmaller_comm (a b : Ordering) : withSmaller a b = withSmaller b a := by
  cases a <;> cases b <;> rfl

theorem withLarger_comm (a b : Ordering) : withLarger a b = withLarger b a := by
  cases a <;> cases b <;> rfl

/-- Comparing with an oriented pair is comparing with its smaller and with its larger member. -/
theorem order_relational_oriented {k : Relation.Kind} (h : k.isCommutative) (x y m s : Value) :
    order (relational k x y) (oriented k m s) =
      (withSmaller (order x m) (order x s)).then (withLarger (order y m) (order y s)) := by
  have hk : compare k k = .eq := Std.ReflCmp.compare_self
  simp only [oriented, h, Bool.true_and, beq_iff_eq]
  split
  next hlt =>
    have hlt := order_ne_lt_of_lt hlt
    rw [order, hk, withSmaller_comm, ← eq_withSmaller hlt, withLarger_comm, ← eq_withLarger hlt]
    rfl
  next hlt =>
    rw [order, hk, ← eq_withSmaller hlt, ← eq_withLarger hlt]
    rfl

theorem order_oriented (k j : Relation.Kind) (l r m s : Value) :
    order (oriented k l r) (oriented j m s) =
      (compare k j).then
        (if k.isCommutative then
          if order r l == .lt then
            (withSmaller (order r m) (order r s)).then (withLarger (order l m) (order l s))
          else (withSmaller (order l m) (order l s)).then (withLarger (order r m) (order r s))
        else (order l m).then (order r s)) := by
  by_cases hkj : compare k j = .eq
  · obtain rfl : k = j := Std.LawfulEqCmp.eq_of_compare hkj
    by_cases hk : k.isCommutative
    · rw [oriented, hkj, if_pos hk]
      simp only [hk, Bool.true_and, Ordering.eq_then]
      split <;> exact order_relational_oriented hk _ _ _ _
    · simp only [oriented, hk, Bool.false_and, Bool.false_eq_true, if_false, order]
  · rcases oriented_eq_or k l r with hl | ⟨_, hl⟩ <;>
      rcases oriented_eq_or j m s with hr | ⟨_, hr⟩ <;>
      rw [hl, hr, order] <;> cases h : compare k j <;> simp_all

theorem cmp_eq_order (v w : Value) : cmp v w = order v.normal w.normal := by
  induction v generalizing w with
  | relational k l r ihl ihr =>
    cases w with
    | relational j m s =>
      simp only [cmp, normal, order_oriented, ihl, ihr]
      by_cases hk : k.isCommutative <;> cases compare k j <;> simp [hk]
    | _ => rcases oriented_eq_or k l.normal r.normal with h | ⟨_, h⟩ <;>
        simp only [cmp, normal, h, order]
  | _ =>
    cases w with
    | relational k m s => rcases oriented_eq_or k m.normal s.normal with h | ⟨_, h⟩ <;>
        simp only [cmp, normal, h, order]
    | _ => simp_all only [cmp, normal, order]

theorem cmp_eq_iff {v w : Value} : cmp v w = .eq ↔ v ≈ w := by
  rw [cmp_eq_order, order_eq_iff, equiv_iff]

/-- Values up to equivalence. -/
abbrev Class := Quotient (inferInstance : Setoid Value)

def toClass (v : Value) : Class := Quotient.mk _ v

theorem toClass_eq_iff {v w : Value} : v.toClass = w.toClass ↔ v ≈ w :=
  ⟨Quotient.exact, fun h => Quotient.sound h⟩

instance : Ord Class where
  compare a b := Quotient.liftOn₂ a b cmp fun v w v' w' hv hw => by
    rw [cmp_eq_order, cmp_eq_order, equiv_iff.1 hv, equiv_iff.1 hw]

theorem compare_toClass (v w : Value) : compare v.toClass w.toClass = order v.normal w.normal :=
  cmp_eq_order v w

theorem Class.exists_eq (a : Class) : ∃ v : Value, v.toClass = a := Quotient.exists_rep a

instance : Std.TransOrd Class where
  eq_swap {a b} := by
    obtain ⟨v, rfl⟩ := a.exists_eq
    obtain ⟨w, rfl⟩ := b.exists_eq
    rw [compare_toClass, compare_toClass, order_swap]
  isLE_trans {a b c} hab hbc := by
    obtain ⟨v, rfl⟩ := a.exists_eq
    obtain ⟨w, rfl⟩ := b.exists_eq
    obtain ⟨x, rfl⟩ := c.exists_eq
    rw [compare_toClass] at hab hbc ⊢
    exact order_isLE_trans hab hbc

instance : Std.LawfulEqOrd Class where
  eq_of_compare {a b} h := by
    obtain ⟨v, rfl⟩ := a.exists_eq
    obtain ⟨w, rfl⟩ := b.exists_eq
    rw [compare_toClass, order_eq_iff] at h
    exact toClass_eq_iff.2 h

end Pathwise.Value
