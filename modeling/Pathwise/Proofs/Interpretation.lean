import Pathwise.Proofs.Closure

namespace Pathwise

universe u

/-- The objects that values stand for, and which objects are equal in value. -/
structure Interpretation (α : Type u) where
  object : Value → α
  congr : ∀ {v w}, v ≈ w → object v = object w
  equals : α → α → Prop
  equivalence : Equivalence equals

namespace Interpretation

variable {α : Type u}

/-- What a kind of relation says about two objects. Objects are not ordered. -/
def Relates (I : Interpretation α) : Relation.Kind → α → α → Prop
  | .equal, a, b => a = b
  | .notEqual, a, b => a ≠ b
  | .valueEqual, a, b => I.equals a b
  | .valueNotEqual, a, b => ¬ I.equals a b
  | .greaterOrEqual, _, _ | .lessThan, _, _ => False

variable {I : Interpretation α} {j k : Relation.Kind} {a b : α}

theorem equals_of_eq (h : a = b) : I.equals a b := h ▸ I.equivalence.refl a

theorem Relates.symm (h : I.Relates k a b) : I.Relates k b a := by
  cases k with
  | equal => exact Eq.symm h
  | notEqual => exact Ne.symm h
  | valueEqual => exact I.equivalence.symm h
  | valueNotEqual => exact fun hba => h (I.equivalence.symm hba)
  | greaterOrEqual | lessThan => exact h

theorem Relates.not_inverse (h : I.Relates k a b) : ¬ I.Relates k.inverse a b := by
  cases k with
  | equal | valueEqual => exact fun hn => hn h
  | notEqual | valueNotEqual => exact h
  | greaterOrEqual | lessThan => exact h.elim

theorem Relates.resolve_ne (hj : I.Relates j a b) (hk : I.Relates k a b) (swapped : Bool) :
    j.resolve k swapped ≠ .unfulfilled := by
  cases j with
  | greaterOrEqual | lessThan => exact hj.elim
  | equal =>
    cases k with
    | notEqual => exact absurd hj hk
    | valueNotEqual => exact absurd (equals_of_eq hj) hk
    | greaterOrEqual | lessThan => exact hk.elim
    | equal | valueEqual => cases swapped <;> decide
  | valueNotEqual =>
    cases k with
    | equal => exact absurd (equals_of_eq hk) hj
    | greaterOrEqual | lessThan => exact hk.elim
    | _ => cases swapped <;> decide
  | notEqual =>
    cases k with
    | equal => exact absurd hk hj
    | greaterOrEqual | lessThan => exact hk.elim
    | _ => cases swapped <;> decide
  | valueEqual =>
    cases k with
    | greaterOrEqual | lessThan => exact hk.elim
    | _ => cases swapped <;> decide

end Interpretation

namespace Relation

variable {α : Type u} {I : Interpretation α} {r s : Relation}

def HoldsIn (I : Interpretation α) (r : Relation) : Prop :=
  I.Relates r.kind (I.object r.left) (I.object r.right)

theorem HoldsIn.same_objects {a b c d : Value} {k : Kind}
    (h : I.Relates k (I.object c) (I.object d)) (hsame : a ≈ c ∧ b ≈ d ∨ a ≈ d ∧ b ≈ c) :
    I.Relates k (I.object a) (I.object b) := by
  rcases hsame with ⟨ha, hb⟩ | ⟨ha, hb⟩
  · rwa [I.congr ha, I.congr hb]
  · rw [I.congr ha, I.congr hb]
    exact h.symm

theorem HoldsIn.implies_ne (hr : r.HoldsIn I) (hs : s.HoldsIn I) :
    r.implies s ≠ .unfulfilled := by
  intro h
  unfold implies at h
  split at h
  · contradiction
  split at h
  next hinverse =>
    obtain ⟨hk, hoperands⟩ := Value.relational_equiv_iff.1 (toValue_equiv_iff.2 hinverse)
    have hs' := HoldsIn.same_objects hs (hoperands.imp_right And.right)
    rw [← hk] at hs'
    exact hr.not_inverse hs'
  split at h
  next hsame => exact hr.resolve_ne (HoldsIn.same_objects hs (sameOperands_iff.1 hsame)) _ h
  · contradiction

/-- Relations that hold do not rule each other out. -/
theorem HoldsIn.resolve_ne {K : Relations} (hK : ∀ k ∈ K.toList, k.HoldsIn I)
    (hr : r.HoldsIn I) : r.resolve K ≠ .unfulfilled := by
  intro h
  by_cases hreflexive : r.isReflexive
  · rw [resolve, if_pos hreflexive] at h
    have heq := I.congr (of_decide_eq_true hreflexive)
    unfold HoldsIn at hr
    rw [heq] at hr
    cases hk : r.kind with
    | notEqual => exact (hk ▸ hr : I.Relates .notEqual _ _) rfl
    | valueNotEqual => exact (hk ▸ hr : I.Relates .valueNotEqual _ _) (I.equivalence.refl _)
    | lessThan => exact (hk ▸ hr : I.Relates .lessThan _ _)
    | equal | greaterOrEqual | valueEqual =>
      rw [hk] at h
      contradiction
  · obtain ⟨k, hk, himplies⟩ := exists_implies_of_resolve hreflexive rfl h
    exact (hK k hk).implies_ne hr himplies

theorem HoldsIn.substitute (hk : r.kind = .equal)
    (hshare : r.hasOperand s.left ∨ r.hasOperand s.right) (hr : r.HoldsIn I) (hs : s.HoldsIn I) :
    (r.substitute s).HoldsIn I := by
  unfold HoldsIn at hr
  rw [hk] at hr
  obtain ⟨v, hv, h⟩ := substitute_cases hshare
  have hobject {w : Value} (hw : r.hasOperand w) : I.object v = I.object w := by
    have hw : I.object w = I.object r.left := by
      rcases hasOperand_iff.1 hw with hw | hw
      · exact (I.congr hw).symm
      · exact (I.congr hw).symm.trans (Eq.symm hr)
    rcases hv with rfl | rfl
    · exact hw.symm
    · exact (Eq.symm hr).trans hw.symm
  rcases h with ⟨hleft, h⟩ | ⟨hright, h⟩
  · rw [h, HoldsIn, hobject hleft]
    exact hs
  · rw [h, HoldsIn, hobject hright]
    exact hs

end Relation

end Pathwise
