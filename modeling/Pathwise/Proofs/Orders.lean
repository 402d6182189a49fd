import Pathwise.Proofs.Deduction

namespace Pathwise

namespace Relation

theorem equiv_simple {j k : Kind} {a b p q : Nat} :
    (⟨j, .simple a, .simple b⟩ : Relation) ≈ ⟨k, .simple p, .simple q⟩ ↔
      j = k ∧ (a = p ∧ b = q ∨ j.isCommutative ∧ a = q ∧ b = p) := by
  rw [← toValue_equiv_iff, toValue, toValue, Value.relational_equiv_iff]
  simp only [Value.simple_equiv_simple]

theorem eq_of_equiv {d : Relation} {k : Kind} {a b : Nat}
    (h : d ≈ ⟨k, .simple a, .simple b⟩) :
    d = ⟨k, .simple a, .simple b⟩ ∨ d = ⟨k, .simple b, .simple a⟩ := by
  obtain ⟨j, l, m⟩ := d
  obtain ⟨rfl, hoperands⟩ := Value.relational_equiv_iff.1 (toValue_equiv_iff.2 h)
  simp only [Value.equiv_simple] at hoperands
  rcases hoperands with ⟨rfl, rfl⟩ | ⟨_, rfl, rfl⟩
  · exact .inl rfl
  · exact .inr rfl

theorem equiv_swap {k : Kind} (hk : k.isCommutative) (a b : Nat) :
    (⟨k, .simple a, .simple b⟩ : Relation) ≈ ⟨k, .simple b, .simple a⟩ :=
  equiv_simple.2 ⟨rfl, .inr ⟨hk, rfl, rfl⟩⟩

/-- The relation says `x ≤ y`, and `x < y` if it is to be strict. -/
inductive Orders : Relation → (strict : Bool) → Nat → Nat → Prop
  | less {strict x y} : Orders ⟨.lessThan, .simple x, .simple y⟩ strict x y
  | greaterOrEqual {x y} : Orders ⟨.greaterOrEqual, .simple y, .simple x⟩ false x y
  | equal {x y} : Orders ⟨.equal, .simple x, .simple y⟩ false x y
  | equal_symm {x y} : Orders ⟨.equal, .simple y, .simple x⟩ false x y

variable {V : Nat → Prop} {r s e : Relation} {b c : Bool} {x y z : Nat}

theorem Orders.congr (h : r.Orders c x y) (hrs : r ≈ s) : s.Orders c x y := by
  obtain ⟨k, l, m⟩ := s
  obtain ⟨hk, hoperands⟩ := Value.relational_equiv_iff.1 (toValue_equiv_iff.2 (Setoid.symm hrs))
  cases h <;> cases hk <;> simp only [Value.equiv_simple] at hoperands <;>
    rcases hoperands with ⟨rfl, rfl⟩ | ⟨hcomm, rfl, rfl⟩ <;> try contradiction
  all_goals constructor

theorem Orders.weaken (h : r.Orders c x y) : r.Orders false x y := by
  cases h <;> constructor

/-- A relation orders one pair of values, in both ways only if it is an equality. -/
theorem Orders.unique {x' y' : Nat} (h : r.Orders b x y) (h' : r.Orders c x' y') :
    x' = x ∧ y' = y ∨ x' = y ∧ y' = x ∧ b = false ∧ c = false := by
  cases h <;> cases h' <;> simp

theorem Orders.bound_or (h : r.Orders c x y) :
    r = ⟨.greaterOrEqual, .simple y, .simple x⟩ ∨ r ≈ ⟨.equal, .simple x, .simple y⟩ ∨
      r.Orders true x y := by
  cases h with
  | less => exact .inr (.inr .less)
  | greaterOrEqual => exact .inl rfl
  | equal => exact .inr (.inl (Setoid.refl _))
  | equal_symm => exact .inr (.inl (equiv_swap rfl _ _))

theorem orders_of_equal (h : r ≈ ⟨.equal, .simple x, .simple y⟩) : r.Orders false x y :=
  Orders.equal.congr (Setoid.symm h)

theorem equal_of_orders (h : r.Orders b x y) (h' : r.Orders c y x) (hne : x ≠ y) :
    r ≈ ⟨.equal, .simple x, .simple y⟩ := by
  rcases h.bound_or with rfl | heq | hstrict
  · cases h'
    exact absurd rfl hne
  · exact heq
  · cases hstrict
    cases h'
    exact absurd rfl hne

theorem Orders.implies (hr : r.Orders b x y) (hs : s.Orders c y x) (hne : x ≠ y)
    (hstrict : b || c) : r.implies s = .unfulfilled := by
  have hne' := hne.symm
  cases hr <;> cases hs <;> try contradiction
  all_goals simp only [Relation.implies, equiv_simple, inverse, sameOperands,
    Value.simple_equiv_simple]
  all_goals simp [hne, hne', Kind.inverse, Kind.isCommutative, Kind.resolve, Kind.admits?]

/-- A relation of one of the three ordering kinds, between simple values with ids in `V`. -/
inductive IsOrdering (V : Nat → Prop) : Relation → Prop
  | less {x y : Nat} (hx : V x) (hy : V y) : IsOrdering V ⟨.lessThan, .simple x, .simple y⟩
  | greaterOrEqual {x y : Nat} (hx : V x) (hy : V y) :
    IsOrdering V ⟨.greaterOrEqual, .simple x, .simple y⟩
  | equal {x y : Nat} (hx : V x) (hy : V y) : IsOrdering V ⟨.equal, .simple x, .simple y⟩

inductive IsComparison (V : Nat → Prop) : Relation → Prop
  | ordering {r : Relation} (h : r.IsOrdering V) : IsComparison V r
  | notEqual {x y : Nat} (hx : V x) (hy : V y) : IsComparison V ⟨.notEqual, .simple x, .simple y⟩

theorem Kind.resolve_notEqual_ne {k : Kind} (h : k ≠ .notEqual) (swapped : Bool) :
    Kind.resolve .notEqual k swapped ≠ .fulfilled := by
  cases k with
  | notEqual => contradiction
  | _ => cases swapped <;> decide

theorem implies_ne_of_notEqual (hr : r.kind ≠ .notEqual) (x y : Nat) :
    implies ⟨.notEqual, .simple x, .simple y⟩ r ≠ .fulfilled := by
  intro h
  unfold implies at h
  split at h
  next heq => exact hr (Value.relational_equiv_iff.1 (toValue_equiv_iff.2 heq)).1.symm
  split at h
  · contradiction
  split at h
  · exact Kind.resolve_notEqual_ne hr _ h
  · contradiction

theorem IsOrdering.kind_ne (hr : r.IsOrdering V) : r.kind ≠ .notEqual := by
  cases hr <;> simp

theorem IsOrdering.exists_admits (hr : r.IsOrdering V) : ∃ g, r.kind.admits? = some g := by
  cases hr <;> exact ⟨_, rfl⟩

theorem Orders.not_isReflexive (h : r.Orders c x y) (hne : x ≠ y) : ¬ r.isReflexive := by
  have hne' := hne.symm
  cases h <;> simpa only [isReflexive, Value.simple_equiv_simple, decide_eq_true_iff]

theorem IsOrdering.holds {a : Nat → Int} (hr : r.IsOrdering V)
    (hV : ∀ {x}, V x → Value.firstFreeId ≤ x) (hlt : ∀ {x y}, r.Orders true x y → a x < a y)
    (hle : ∀ {x y}, r.Orders false x y → a x ≤ a y) : r.Holds fun id => .int (a id) := by
  have heval {x : Nat} (hx : V x) :
      (Value.simple x).eval (fun id => .int (a id)) = some (.int (a x)) := by
    rw [Value.eval, Valuation.read_of_le (hV hx)]
  cases hr with
  | less hx hy => exact holds_of_lt (heval hx) (heval hy) (hlt .less)
  | greaterOrEqual hx hy => exact holds_of_ge (heval hx) (heval hy) (hle .greaterOrEqual)
  | equal hx hy =>
    have heq := Int.le_antisymm (hle .equal) (hle .equal_symm)
    exact holds_of_eq (heval hx) (heval hy) heq

/-- One relation leads from `x` to some value, and the other from there to `y`. -/
def Joins (r s : Relation) (c : Bool) (x y : Nat) : Prop :=
  ∃ z a b, r.Orders a x z ∧ s.Orders b z y ∧ c = (a || b)

theorem overlaps_simple {j k : Kind} {a b p q : Nat} :
    overlaps ⟨j, .simple a, .simple b⟩ ⟨k, .simple p, .simple q⟩ ↔
      a ≠ b ∧ p ≠ q ∧ (a = p ∨ b = p ∨ a = q ∨ b = q) ∧ ¬ (a = p ∧ b = q) ∧ ¬ (a = q ∧ b = p) := by
  simp only [overlaps, isReflexive, hasOperand, sameOperands, Value.simple_equiv_simple,
    Bool.and_eq_true, Bool.or_eq_true, Bool.not_eq_true', Bool.or_eq_false_iff,
    Bool.and_eq_false_iff, decide_eq_true_iff, decide_eq_false_iff_not]
  grind

/-- Two relations that meet in a value have a consequence, whichever is read first. -/
theorem deduce?_of_orders (hr : r.Orders b x y) (hs : s.Orders c y z) (hxy : x ≠ y) (hyz : y ≠ z)
    (hxz : x ≠ z) :
    (∃ e, r.deduce? s = some e ∧ e.Orders (b || c) x z) ∧
      ∃ e, s.deduce? r = some e ∧ e.Orders (b || c) x z := by
  have hyx := hxy.symm
  have hzy := hyz.symm
  have hzx := hxz.symm
  constructor
  · cases hr <;> cases hs <;> simp only [deduce?, simplify?, overlaps, chain?, substitute,
      hasOperand, sameOperands, isReflexive, Value.simple_equiv_simple, equiv_simple] <;>
      simp [*] <;> constructor
  · cases hr <;> cases hs <;> simp only [deduce?, simplify?, overlaps, chain?, substitute,
      hasOperand, sameOperands, isReflexive, Value.simple_equiv_simple, equiv_simple] <;>
      simp [*] <;> constructor

theorem Orders.joins_left {k : Kind} {v : Value} {w w' : Nat} (hr : r.Orders false w w')
    (hr' : r.Orders false w' w) (h : Orders ⟨k, .simple w', v⟩ c x y) :
    r.Joins ⟨k, .simple w, v⟩ c x y ∨ Joins ⟨k, .simple w, v⟩ r c x y := by
  cases h with
  | less => exact .inl ⟨w, false, c, hr', .less, rfl⟩
  | greaterOrEqual => exact .inr ⟨w, false, false, .greaterOrEqual, hr, rfl⟩
  | equal => exact .inl ⟨w, false, false, hr', .equal, rfl⟩
  | equal_symm => exact .inr ⟨w, false, false, .equal_symm, hr, rfl⟩

theorem Orders.joins_right {k : Kind} {v : Value} {w w' : Nat} (hr : r.Orders false w w')
    (hr' : r.Orders false w' w) (h : Orders ⟨k, v, .simple w'⟩ c x y) :
    r.Joins ⟨k, v, .simple w⟩ c x y ∨ Joins ⟨k, v, .simple w⟩ r c x y := by
  cases h with
  | less => exact .inr ⟨w, c, false, .less, hr, (Bool.or_false c).symm⟩
  | greaterOrEqual => exact .inl ⟨w, false, false, hr', .greaterOrEqual, rfl⟩
  | equal => exact .inr ⟨w, false, false, .equal, hr, rfl⟩
  | equal_symm => exact .inl ⟨w, false, false, hr', .equal_symm, rfl⟩

theorem substitute_simple {j k : Kind} {a b p q : Nat}
    (h : overlaps ⟨j, .simple a, .simple b⟩ ⟨k, .simple p, .simple q⟩) :
    ∃ c, c ≠ p ∧ c ≠ q ∧
      ((a = p ∧ b = c ∨ a = c ∧ b = p) ∧
          substitute ⟨j, .simple a, .simple b⟩ ⟨k, .simple p, .simple q⟩ =
            ⟨k, .simple c, .simple q⟩ ∨
        (a = q ∧ b = c ∨ a = c ∧ b = q) ∧
          substitute ⟨j, .simple a, .simple b⟩ ⟨k, .simple p, .simple q⟩ =
            ⟨k, .simple p, .simple c⟩) := by
  obtain ⟨hab, hpq, hshare, hsame, hswap⟩ := overlaps_simple.1 h
  have hba := Ne.symm hab
  have hqp := Ne.symm hpq
  rcases hshare with rfl | rfl | rfl | rfl
  · have hbq : ¬ b = q := fun h => hsame ⟨rfl, h⟩
    refine ⟨b, hba, hbq, .inl ⟨.inl ⟨rfl, rfl⟩, ?_⟩⟩
    simp only [substitute, hasOperand, Value.simple_equiv_simple]
    simp
  · have haq : ¬ a = q := fun h => hswap ⟨h, rfl⟩
    refine ⟨a, hab, haq, .inl ⟨.inr ⟨rfl, rfl⟩, ?_⟩⟩
    simp only [substitute, hasOperand, Value.simple_equiv_simple]
    simp [hba, Ne.symm haq]
  · have hbp : ¬ b = p := fun h => hswap ⟨rfl, h⟩
    refine ⟨b, hbp, hba, .inr ⟨.inl ⟨rfl, rfl⟩, ?_⟩⟩
    simp only [substitute, hasOperand, Value.simple_equiv_simple]
    simp [hqp, hbp]
  · have hap : ¬ a = p := fun h => hsame ⟨h, rfl⟩
    refine ⟨a, hap, hab, .inr ⟨.inr ⟨rfl, rfl⟩, ?_⟩⟩
    simp only [substitute, hasOperand, Value.simple_equiv_simple]
    simp [hap, Ne.symm hap, hqp, hba]

/-- Substitution of equals leads nowhere that the two relations do not. -/
theorem substitute_joins {a b p q : Nat} {k : Kind}
    (h : overlaps ⟨.equal, .simple a, .simple b⟩ ⟨k, .simple p, .simple q⟩)
    (he : (substitute ⟨.equal, .simple a, .simple b⟩ ⟨k, .simple p, .simple q⟩).Orders c x y) :
    Joins ⟨.equal, .simple a, .simple b⟩ ⟨k, .simple p, .simple q⟩ c x y ∨
      Joins ⟨k, .simple p, .simple q⟩ ⟨.equal, .simple a, .simple b⟩ c x y := by
  obtain ⟨d, _, _, ⟨hside, hd⟩ | ⟨hside, hd⟩⟩ := substitute_simple h
  · rw [hd] at he
    rcases hside with ⟨rfl, rfl⟩ | ⟨rfl, rfl⟩
    · exact Orders.joins_left .equal .equal_symm he
    · exact Orders.joins_left .equal_symm .equal he
  · rw [hd] at he
    rcases hside with ⟨rfl, rfl⟩ | ⟨rfl, rfl⟩
    · exact Orders.joins_right .equal .equal_symm he
    · exact Orders.joins_right .equal_symm .equal he

theorem IsOrdering.substitute {a b : Nat} (ha : V a) (hb : V b) (hs : s.IsOrdering V) :
    (Relation.substitute ⟨.equal, .simple a, .simple b⟩ s).IsOrdering V := by
  unfold Relation.substitute
  cases hs <;> dsimp only <;> split <;> split <;> constructor <;> assumption

theorem chain?_joins (hr : r.IsOrdering V) (hs : s.IsOrdering V) (hoverlap : r.overlaps s)
    (h : r.chain? s = some e) :
    e.IsOrdering V ∧ ∀ {c x y}, e.Orders c x y → r.Joins s c x y ∨ s.Joins r c x y := by
  cases hr with
  | @less a b ha hb =>
    cases hs with
    | less hp hq =>
      simp only [chain?, Value.simple_equiv_simple] at h
      split at h
      next hbp =>
        cases h; cases hbp
        refine ⟨.less ha hq, fun {c _ _} he => ?_⟩
        cases he
        exact .inl ⟨b, c, c, .less, .less, (Bool.or_self c).symm⟩
      next =>
        split at h
        next haq =>
          cases h; cases haq
          refine ⟨.less hp hb, fun {c _ _} he => ?_⟩
          cases he
          exact .inr ⟨a, c, c, .less, .less, (Bool.or_self c).symm⟩
        next => contradiction
    | greaterOrEqual hp hq =>
      simp only [chain?, Value.simple_equiv_simple] at h
      split at h
      next hbq =>
        cases h; cases hbq
        refine ⟨.less ha hp, fun {c _ _} he => ?_⟩
        cases he
        exact .inl ⟨b, c, false, .less, .greaterOrEqual, (Bool.or_false c).symm⟩
      next =>
        split at h
        next hap =>
          cases h; cases hap
          refine ⟨.less hq hb, fun {c _ _} he => ?_⟩
          cases he
          exact .inr ⟨a, false, c, .greaterOrEqual, .less, rfl⟩
        next => contradiction
    | equal => contradiction
  | @greaterOrEqual a b ha hb =>
    cases hs with
    | greaterOrEqual hp hq =>
      simp only [chain?, Value.simple_equiv_simple] at h
      split at h
      next hbp =>
        cases h; cases hbp
        refine ⟨.greaterOrEqual ha hq, fun he => ?_⟩
        cases he
        exact .inr ⟨b, false, false, .greaterOrEqual, .greaterOrEqual, rfl⟩
      next => contradiction
    | less => contradiction
    | equal => contradiction
  | equal ha hb =>
    cases h
    refine ⟨hs.substitute ha hb, fun he => ?_⟩
    cases hs <;> exact substitute_joins hoverlap he

theorem deduce?_opposite (hne : x ≠ y) :
    deduce? ⟨.greaterOrEqual, .simple x, .simple y⟩ ⟨.greaterOrEqual, .simple y, .simple x⟩ =
      some ⟨.equal, .simple x, .simple y⟩ := by
  have hdiffer : ¬ (⟨.greaterOrEqual, .simple x, .simple y⟩ : Relation) ≈
      ⟨.greaterOrEqual, .simple y, .simple x⟩ := by
    rw [equiv_simple]
    simp [Kind.isCommutative, hne]
  simp only [deduce?, simplify?, sameOperands, Value.simple_equiv_simple, hdiffer]
  simp

theorem deduce?_differs (hr : r ≈ ⟨.equal, .simple x, .simple y⟩)
    (hs : s ≈ ⟨.notEqual, .simple y, .simple z⟩) (hxy : x ≠ y) (hyz : y ≠ z) (hxz : x ≠ z) :
    (∃ e, r.deduce? s = some e ∧ e ≈ ⟨.notEqual, .simple x, .simple z⟩) ∧
      ∃ e, s.deduce? r = some e ∧ e ≈ ⟨.notEqual, .simple x, .simple z⟩ := by
  have hyx := hxy.symm
  have hzy := hyz.symm
  have hzx := hxz.symm
  have hrefl := Setoid.refl (⟨.notEqual, .simple x, .simple z⟩ : Relation)
  have hswap := equiv_swap (k := .notEqual) rfl z x
  rcases eq_of_equiv hr with rfl | rfl <;> rcases eq_of_equiv hs with rfl | rfl <;>
    simp only [deduce?, simplify?, overlaps, chain?, substitute, hasOperand, sameOperands,
      isReflexive, Value.simple_equiv_simple] <;>
    simp only [hxy, hyx, hxz, hzx, hyz, hzy] <;>
    exact ⟨⟨_, rfl, by assumption⟩, ⟨_, rfl, by assumption⟩⟩

theorem IsOrdering.deduce?_joins (hr : r.IsOrdering V) (hs : s.IsOrdering V)
    (h : r.deduce? s = some e) :
    e.IsOrdering V ∧ ∀ {c x y}, e.Orders c x y →
      r.Orders c x y ∨ s.Orders c x y ∨ r.Joins s c x y ∨ s.Joins r c x y := by
  rcases deduce?_cases h with h | ⟨hoverlap, h⟩ | ⟨hoverlap, h⟩
  · obtain ⟨hsame, rfl⟩ := Option.ite_some_none_eq_some.1 h
    obtain ⟨hrk, hsk, hsame, hne⟩ := hsame
    cases hr with
    | greaterOrEqual ha hb =>
      cases hs with
      | greaterOrEqual _ _ =>
        simp only [sameOperands_iff, Value.simple_equiv_simple] at hsame
        refine ⟨.equal ha hb, fun he => ?_⟩
        rcases hsame with ⟨rfl, rfl⟩ | ⟨rfl, rfl⟩
        · exact absurd (Setoid.refl _) hne
        · cases he with
          | equal => exact .inr (.inl .greaterOrEqual)
          | equal_symm => exact .inl .greaterOrEqual
      | less | equal => contradiction
    | less | equal => contradiction
  · obtain ⟨hV, hjoins⟩ := chain?_joins hr hs hoverlap h
    exact ⟨hV, fun he => .inr (.inr (hjoins he))⟩
  · obtain ⟨hV, hjoins⟩ := chain?_joins hs hr hoverlap h
    exact ⟨hV, fun he => .inr (.inr (hjoins he).symm)⟩

/-- In a difference, one side is replaced by a value that `d` makes equal to it. -/
inductive Replaces (V : Nat → Prop) (d : Relation) : Relation → Relation → Prop
  | left {p q x : Nat} (h : d ≈ ⟨.equal, .simple p, .simple x⟩) (hx : V x) (hq : V q) :
    Replaces V d ⟨.notEqual, .simple p, .simple q⟩ ⟨.notEqual, .simple x, .simple q⟩
  | right {p q x : Nat} (h : d ≈ ⟨.equal, .simple q, .simple x⟩) (hp : V p) (hx : V x) :
    Replaces V d ⟨.notEqual, .simple p, .simple q⟩ ⟨.notEqual, .simple p, .simple x⟩

theorem replaces_of_chain? (hr : r.IsOrdering V) {p q : Nat} (hp : V p) (hq : V q)
    (hoverlap : r.overlaps ⟨.notEqual, .simple p, .simple q⟩)
    (h : r.chain? ⟨.notEqual, .simple p, .simple q⟩ = some e) :
    Replaces V r ⟨.notEqual, .simple p, .simple q⟩ e := by
  cases hr with
  | less | greaterOrEqual => contradiction
  | equal ha hb =>
    cases h
    obtain ⟨d, _, _, ⟨hside, hd⟩ | ⟨hside, hd⟩⟩ := substitute_simple hoverlap
    · rw [hd]
      rcases hside with ⟨rfl, rfl⟩ | ⟨rfl, rfl⟩
      · exact .left (Setoid.refl _) hb hq
      · exact .left (equiv_swap rfl _ _) ha hq
    · rw [hd]
      rcases hside with ⟨rfl, rfl⟩ | ⟨rfl, rfl⟩
      · exact .right (Setoid.refl _) hp hb
      · exact .right (equiv_swap rfl _ _) hp ha

/-- What is deduced from two comparisons is an order that follows from two orders, or a difference
in which one side is replaced. -/
theorem deduce?_comparison (hr : r.IsComparison V) (hs : s.IsComparison V)
    (h : r.deduce? s = some e) :
    (r.IsOrdering V ∧ s.IsOrdering V) ∨ Replaces V r s e ∨ Replaces V s r e := by
  cases hr with
  | ordering hr =>
    cases hs with
    | ordering hs => exact .inl ⟨hr, hs⟩
    | notEqual hp hq =>
      rcases deduce?_cases h with h | ⟨hoverlap, h⟩ | ⟨_, h⟩
      · obtain ⟨⟨_, hk, _⟩, _⟩ := Option.ite_some_none_eq_some.1 h
        contradiction
      · exact .inr (.inl (replaces_of_chain? hr hp hq hoverlap h))
      · cases hr <;> contradiction
  | notEqual hp hq =>
    rcases deduce?_cases h with h | ⟨_, h⟩ | ⟨hoverlap, h⟩
    · obtain ⟨⟨hk, _⟩, _⟩ := Option.ite_some_none_eq_some.1 h
      contradiction
    · cases hs with
      | ordering hs => cases hs <;> contradiction
      | notEqual => contradiction
    · cases hs with
      | ordering hs => exact .inr (.inr (replaces_of_chain? hs hp hq hoverlap h))
      | notEqual => contradiction

theorem Replaces.isComparison (h : Replaces V r s e) : e.IsComparison V := by
  cases h with
  | left _ hx hq => exact .notEqual hx hq
  | right _ hp hx => exact .notEqual hp hx

/-- What is deduced says nothing about the order of values that the two relations do not lead to. -/
theorem deduce?_joins (hr : r.IsComparison V) (hs : s.IsComparison V) (h : r.deduce? s = some e) :
    e.IsComparison V ∧ ∀ {c x y}, e.Orders c x y →
      r.Orders c x y ∨ s.Orders c x y ∨ r.Joins s c x y ∨ s.Joins r c x y := by
  rcases deduce?_comparison hr hs h with ⟨hr, hs⟩ | hreplaces | hreplaces
  · obtain ⟨he, hjoins⟩ := hr.deduce?_joins hs h
    exact ⟨.ordering he, hjoins⟩
  all_goals
    refine ⟨hreplaces.isComparison, fun he => ?_⟩
    cases hreplaces <;> contradiction

end Relation

end Pathwise
