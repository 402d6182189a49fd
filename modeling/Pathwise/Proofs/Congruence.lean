import Pathwise.Proofs.Forgetting

namespace Pathwise

theorem Value.rel_equiv_iff {a b : Option Value} :
    a.Rel (· ≈ ·) b ↔ a.map normal = b.map normal := by
  cases a with
  | none => cases b <;> simp
  | some v =>
    cases b with
    | none => simp
    | some w => simp only [Option.rel_some_some, equiv_iff, Option.map_some, Option.some.injEq]

namespace Relation

variable {r r' s s' : Relation}

def flip (r : Relation) : Relation := ⟨r.kind, r.right, r.left⟩

@[simp] theorem kind_flip : r.flip.kind = r.kind := rfl

@[simp] theorem left_flip : r.flip.left = r.right := rfl

@[simp] theorem right_flip : r.flip.right = r.left := rfl

theorem normal_flip (hk : r.kind.isCommutative) : r.flip.normal = r.normal := by
  apply toValue_inj
  rw [toValue_normal, toValue_normal]
  exact Value.oriented_comm hk r.right.normal r.left.normal

theorem isReflexive_flip : r.flip.isReflexive = r.isReflexive :=
  decide_eq_decide.2 ⟨Setoid.symm, Setoid.symm⟩

theorem hasOperand_flip (v : Value) : r.flip.hasOperand v = r.hasOperand v := Bool.or_comm ..

theorem sameOperands_flip_right : r.sameOperands s.flip = r.sameOperands s := Bool.or_comm ..

theorem sameOperands_flip_left : r.flip.sameOperands s = r.sameOperands s := by
  rw [Bool.eq_iff_iff, sameOperands_iff, sameOperands_iff]
  simp only [left_flip, right_flip, and_comm, or_comm]

theorem overlaps_flip_left : r.flip.overlaps s = r.overlaps s := by
  simp only [overlaps, isReflexive_flip, hasOperand_flip, sameOperands_flip_left]

theorem overlaps_flip_right : r.overlaps s.flip = r.overlaps s := by
  simp only [overlaps, isReflexive_flip, sameOperands_flip_right, left_flip, right_flip,
    Bool.or_comm (r.hasOperand s.right)]

theorem overlaps_hasOperand (h : r.overlaps s) : r.hasOperand s.right = !r.hasOperand s.left := by
  have hboth : ¬ (r.hasOperand s.left ∧ r.hasOperand s.right) := by
    rintro ⟨hleft, hright⟩
    simp only [overlaps, Bool.and_eq_true, Bool.not_eq_true', isReflexive,
      decide_eq_false_iff_not] at h
    obtain ⟨⟨⟨_, hs⟩, _⟩, hsame⟩ := h
    rw [← Bool.not_eq_true, sameOperands_iff] at hsame
    rcases hasOperand_iff.1 hleft with hl | hl <;> rcases hasOperand_iff.1 hright with hr | hr
    · exact hs (Setoid.trans (Setoid.symm hl) hr)
    · exact hsame (.inl ⟨hl, hr⟩)
    · exact hsame (.inr ⟨hr, hl⟩)
    · exact hs (Setoid.trans (Setoid.symm hl) hr)
  have hshare := overlaps_share h
  cases hl : r.hasOperand s.left <;> cases hr : r.hasOperand s.right <;> simp_all

theorem substitute_flip_left (h : r.overlaps s) : r.flip.substitute s = r.substitute s := by
  have hr := overlaps_hasOperand (overlaps_symm h)
  simp only [substitute, hasOperand_flip, left_flip, right_flip, hr]
  cases s.hasOperand r.left <;> rfl

theorem substitute_flip_right (h : r.overlaps s) :
    r.substitute s.flip = (r.substitute s).flip := by
  have hs := overlaps_hasOperand h
  simp only [substitute, hasOperand_flip, left_flip, hs]
  cases r.hasOperand s.left <;> rfl

theorem chain?_flip_left (h : r.overlaps s) (hk : r.kind.isCommutative) :
    r.flip.chain? s = r.chain? s := by
  unfold chain?
  simp only [kind_flip, substitute_flip_left h]
  cases hr : r.kind <;> cases hs : s.kind <;> simp_all [Kind.isCommutative]

theorem chain?_flip_right (h : r.overlaps s) (hk : s.kind.isCommutative) :
    (r.chain? s.flip).map normal = (r.chain? s).map normal := by
  have hkind : (r.substitute s).kind = s.kind := by
    unfold substitute
    dsimp only
    split <;> rfl
  have hsubstitute : (r.substitute s.flip).normal = (r.substitute s).normal := by
    rw [substitute_flip_right h, normal_flip (hkind ▸ hk)]
  unfold chain?
  simp only [kind_flip]
  cases hr : r.kind <;> cases hs : s.kind <;> simp_all [Kind.isCommutative]

theorem Kind.ne_greaterOrEqual {k : Kind} (hk : k.isCommutative) : k ≠ .greaterOrEqual := by
  rintro rfl
  contradiction

theorem deduce?_flip_left (hk : r.kind.isCommutative) :
    (r.flip.deduce? s).map normal = (r.deduce? s).map normal := by
  have hne := Kind.ne_greaterOrEqual hk
  simp only [deduce?, simplify?, kind_flip, hne, false_and, if_false, overlaps_flip_left]
  split
  next h =>
    have hs := chain?_flip_right (overlaps_symm h) hk
    simp [Option.map_or, chain?_flip_left h hk, hs]
  next => rfl

theorem deduce?_flip_right (hk : s.kind.isCommutative) :
    (r.deduce? s.flip).map normal = (r.deduce? s).map normal := by
  have hne := Kind.ne_greaterOrEqual hk
  simp only [deduce?, simplify?, kind_flip, hne, false_and, and_false, if_false,
    overlaps_flip_right]
  split
  next h =>
    have hr := chain?_flip_right h hk
    simp [Option.map_or, chain?_flip_left (overlaps_symm h) hk, hr]
  next => rfl

theorem map_normal_of_equiv (h : r ≈ s) :
    r.map Value.normal = s.map Value.normal ∨
      r.kind.isCommutative ∧ r.flip.map Value.normal = s.map Value.normal := by
  obtain ⟨hk, ⟨hl, hr⟩ | ⟨hc, hl, hr⟩⟩ := Value.relational_equiv_iff.1 (toValue_equiv_iff.2 h)
  · left
    simp only [map, mk.injEq]
    exact ⟨hk, hl, hr⟩
  · right
    simp only [map, flip, mk.injEq]
    exact ⟨hc, hk, hr, hl⟩

theorem deduce?_of_map_normal (hr : r.map Value.normal = r'.map Value.normal)
    (hs : s.map Value.normal = s'.map Value.normal) :
    (r.deduce? s).map normal = (r'.deduce? s').map normal := by
  have hnormal {v w : Value} : v.normal ≈ w.normal ↔ v ≈ w := by
    simp only [Value.equiv_iff, Value.normal_normal]
  have hmap (r s : Relation) :
      ((r.map Value.normal).deduce? (s.map Value.normal)).map normal = (r.deduce? s).map normal := by
    rw [deduce?_map hnormal, Option.map_map]
    congr 1
    funext d
    simp only [Function.comp_apply, normal, map, Value.normal_normal]
  rw [← hmap r s, hr, hs, hmap]

/-- What follows from two relations does not depend on how they are written down. -/
theorem deduce?_congr (hr : r ≈ r') (hs : s ≈ s') :
    (r.deduce? s).map normal = (r'.deduce? s').map normal := by
  rcases map_normal_of_equiv hr with hr | ⟨hrk, hr⟩ <;>
    rcases map_normal_of_equiv hs with hs | ⟨hsk, hs⟩
  · exact deduce?_of_map_normal hr hs
  · rw [← deduce?_flip_right hsk]
    exact deduce?_of_map_normal hr hs
  · rw [← deduce?_flip_left hrk]
    exact deduce?_of_map_normal hr hs
  · rw [← deduce?_flip_left hrk, ← deduce?_flip_right hsk]
    exact deduce?_of_map_normal hr hs

theorem Kind.isCommutative_inverse (k : Kind) : k.inverse.isCommutative = k.isCommutative := by
  cases k <;> rfl

theorem inverse_equiv (h : r ≈ s) : r.inverse ≈ s.inverse := by
  obtain ⟨hk, hoperands⟩ := Value.relational_equiv_iff.1 (toValue_equiv_iff.2 h)
  refine toValue_equiv_iff.1 (Value.relational_equiv_iff.2 ⟨congrArg Kind.inverse hk, ?_⟩)
  exact hoperands.imp_right fun h => ⟨r.kind.isCommutative_inverse.trans h.1, h.2⟩

theorem Kind.resolve_swapped {checked : Kind} (h : checked.isCommutative) (known : Kind)
    (swapped : Bool) : known.resolve checked swapped = known.resolve checked false := by
  cases checked with
  | greaterOrEqual | lessThan => contradiction
  | equal | notEqual | valueEqual | valueNotEqual => cases known <;> cases swapped <;> rfl

theorem sameOperands_congr (h : s ≈ s') : r.sameOperands s = r.sameOperands s' := by
  rw [Bool.eq_iff_iff, sameOperands_iff, sameOperands_iff]
  obtain ⟨_, ⟨hl, hr⟩ | ⟨_, hl, hr⟩⟩ := Value.relational_equiv_iff.1 (toValue_equiv_iff.2 h)
  · simp only [Value.equiv_iff, Value.equiv_iff.1 hl, Value.equiv_iff.1 hr]
  · simp only [Value.equiv_iff, Value.equiv_iff.1 hl, Value.equiv_iff.1 hr]
    exact or_comm

theorem isReflexive_congr (h : r ≈ r') : r.isReflexive = r'.isReflexive := by
  obtain ⟨_, ⟨hl, hr⟩ | ⟨_, hl, hr⟩⟩ := Value.relational_equiv_iff.1 (toValue_equiv_iff.2 h)
  · simp only [isReflexive, Value.equiv_iff, Value.equiv_iff.1 hl, Value.equiv_iff.1 hr]
  · simp only [isReflexive, Value.equiv_iff, Value.equiv_iff.1 hl, Value.equiv_iff.1 hr, eq_comm]

/-- What a relation says about another does not depend on how the other is written down. -/
theorem implies_congr (h : s ≈ s') : r.implies s = r.implies s' := by
  have hequiv (q : Relation) : q ≈ s ↔ q ≈ s' :=
    ⟨fun hq => Setoid.trans hq h, fun hq => Setoid.trans hq (Setoid.symm h)⟩
  have hresolve : r.kind.resolve s.kind (!decide (r.left ≈ s.left)) =
      r.kind.resolve s'.kind (!decide (r.left ≈ s'.left)) := by
    obtain ⟨hk, ⟨hl, _⟩ | ⟨hc, _⟩⟩ := Value.relational_equiv_iff.1 (toValue_equiv_iff.2 h)
    · simp only [hk, Value.equiv_iff, Value.equiv_iff.1 hl]
    · rw [← hk, Kind.resolve_swapped hc, ← Kind.resolve_swapped hc]
  simp only [implies, hequiv, sameOperands_congr h, hresolve]

/-- What is known about a relation does not depend on how it is written down. -/
theorem resolve_congr (h : r ≈ r') (known : Relations) : r.resolve known = r'.resolve known := by
  have hk : r.kind = r'.kind := (Value.relational_equiv_iff.1 (toValue_equiv_iff.2 h)).1
  simp only [resolve, isReflexive_congr h, hk, implies_congr h]

end Relation

namespace State

variable {s t : State} {v w : Value}

theorem map_find?_vars (s : State) (name : String) :
    (s.vars.find? name).map (fun e => (e.1, e.2.normal)) =
      (s.value? name).map fun v => (name, v.normal) := by
  unfold value?
  cases hfind : s.vars.find? name with
  | none => rfl
  | some e =>
    obtain rfl : e.1 = name := Std.LawfulEqCmp.eq_of_compare (Keyed.find?_eq_some_iff.1 hfind).2
    rfl

theorem map_find?_constraints (s : State) (v : Value) :
    (s.constraints.find? v.toClass).map (fun e => (e.1.normal, e.2)) =
      (s.constraintsOf? v).map fun held => (v.normal, held) := by
  unfold constraintsOf?
  cases hfind : s.constraints.find? v.toClass with
  | none => rfl
  | some e =>
    have hkey := Std.LawfulEqCmp.eq_of_compare (Keyed.find?_eq_some_iff.1 hfind).2
    rw [Option.map_some, Option.map_some, Option.map_some,
      Value.equiv_iff.1 (Value.toClass_eq_iff.1 hkey)]

theorem map_find?_relations (s : State) (r : Relation) :
    (s.relations.find? r.toValue.toClass).map Relation.normal =
      if s.relations.has r then some r.normal else none := by
  unfold Relations.has Keyed.contains
  cases hfind : s.relations.find? r.toValue.toClass with
  | none => rfl
  | some e =>
    have hkey := Std.LawfulEqCmp.eq_of_compare (Keyed.find?_eq_some_iff.1 hfind).2
    have hequiv := Relation.toValue_equiv_iff.1 (Value.toClass_eq_iff.1 hkey)
    rw [Option.map_some, Relation.equiv_iff.1 hequiv]
    rfl

theorem vars_same_iff :
    s.vars.toList.map (fun e => (e.1, e.2.normal)) =
        t.vars.toList.map (fun e => (e.1, e.2.normal)) ↔
      ∀ name, (s.value? name).Rel (· ≈ ·) (t.value? name) := by
  rw [Keyed.map_toList_eq_iff]
  · refine forall_congr' fun name => ?_
    rw [map_find?_vars, map_find?_vars, Value.rel_equiv_iff]
    cases s.value? name <;> cases t.value? name <;> simp
  · intro a b h
    rw [(Prod.mk.inj h).1]
    exact Std.ReflCmp.compare_self

theorem constraints_same_iff :
    s.constraints.toList.map (fun e => (e.1.normal, e.2)) =
        t.constraints.toList.map (fun e => (e.1.normal, e.2)) ↔
      ∀ v, s.constraintsOf? v = t.constraintsOf? v := by
  rw [Keyed.map_toList_eq_iff]
  · have hview (v : Value) :
        (s.constraints.find? v.toClass).map (fun e => (e.1.normal, e.2)) =
            (t.constraints.find? v.toClass).map (fun e => (e.1.normal, e.2)) ↔
          s.constraintsOf? v = t.constraintsOf? v := by
      rw [map_find?_constraints, map_find?_constraints]
      cases s.constraintsOf? v <;> cases t.constraintsOf? v <;> simp
    constructor
    · exact fun h v => (hview v).1 (h v.toClass)
    · intro h k
      obtain ⟨v, rfl⟩ := k.exists_eq
      exact (hview v).2 (h v)
  · intro a b h
    rw [Value.toClass_eq_iff.2 (Value.equiv_iff.2 (Prod.mk.inj h).1)]
    exact Std.ReflCmp.compare_self

theorem relations_same_iff :
    s.relations.toList.map Relation.normal = t.relations.toList.map Relation.normal ↔
      ∀ r, s.relations.has r ↔ t.relations.has r := by
  rw [Keyed.map_toList_eq_iff]
  · have hview (r : Relation) :
        (s.relations.find? r.toValue.toClass).map Relation.normal =
            (t.relations.find? r.toValue.toClass).map Relation.normal ↔
          (s.relations.has r ↔ t.relations.has r) := by
      rw [map_find?_relations, map_find?_relations]
      cases s.relations.has r <;> cases t.relations.has r <;> simp
    constructor
    · exact fun h r => (hview r).1 (h r.toValue.toClass)
    · -- a key that no relation has is found in neither state
      intro h k
      by_cases hk : ∃ r : Relation, r.toValue.toClass = k
      · obtain ⟨r, rfl⟩ := hk
        exact (hview r).2 (h r)
      · have hnone (known : Relations) : known.find? k = none := by
          rw [Option.eq_none_iff_forall_ne_some]
          intro r hr
          exact hk ⟨r, Std.LawfulEqCmp.eq_of_compare (Keyed.find?_eq_some_iff.1 hr).2⟩
        rw [hnone, hnone]
  · intro a b h
    rw [Value.toClass_eq_iff.2 (Relation.toValue_equiv_iff.2 (Relation.equiv_iff.2 h))]
    exact Std.ReflCmp.compare_self

theorem constraint?_of_equiv (h : s ≈ t) (v : Value) (d : Domain) :
    s.constraint? v d = t.constraint? v d := by
  rw [constraint?, constraint?, constraints_same_iff.1 h.2.2.1 v]

theorem has_of_equiv (h : s ≈ t) {r : Relation} : s.relations.has r ↔ t.relations.has r :=
  relations_same_iff.1 h.2.2.2.1 r

theorem canReach_of_equiv (h : s ≈ t) (v : Value) : s.canReach v = t.canReach v := by
  have hnormal (s : State) : s.canReach v = (s.roots.map Value.normal).any (·.references v) := by
    simp only [canReach, List.any_map, Function.comp_def, Value.references_normal]
  have hvars (s : State) : s.vars.entries.map (fun e => e.2.normal) =
      (s.vars.entries.map fun e => (e.1, e.2.normal)).map Prod.snd := by
    rw [List.map_map]
    rfl
  have hroots (s : State) : s.roots.map Value.normal =
      s.stack.map Value.normal ++ s.vars.entries.map (fun e => e.2.normal) ++
        (s.exit?.map Value.normal).toList := by
    simp only [roots, Keyed.toList, List.map_append, List.map_map, Option.toList_map]
    rfl
  obtain ⟨hstack, hbindings, _, _, hexit⟩ := h
  rw [hnormal, hnormal, hroots, hroots, hvars, hvars, hstack, hbindings, hexit]

theorem equal_equiv_iff {k : Relation.Kind} {a b : Value} :
    (⟨k, a, b⟩ : Relation) ≈ ⟨.equal, v, w⟩ ↔ k = .equal ∧ (a ≈ v ∧ b ≈ w ∨ a ≈ w ∧ b ≈ v) := by
  rw [← Relation.toValue_equiv_iff]
  refine Value.relational_equiv_iff.trans (and_congr_right ?_)
  rintro rfl
  simp [Relation.Kind.isCommutative]

theorem has_equal_iff :
    s.relations.has ⟨.equal, v, w⟩ ↔ ∃ u ∈ s.equalValues v, u ≈ w := by
  simp only [Relations.has_iff, equalValues, List.mem_filterMap, List.mem_filter, beq_iff_eq]
  constructor
  · rintro ⟨⟨k, a, b⟩, hr, heq⟩
    obtain ⟨rfl, ⟨hav, hbw⟩ | ⟨haw, hbv⟩⟩ := equal_equiv_iff.1 heq
    · exact ⟨b, ⟨_, ⟨hr, rfl⟩, if_pos hav⟩, hbw⟩
    · by_cases hav : a ≈ v
      · -- both sides are `v`, and so is `w`
        refine ⟨b, ⟨_, ⟨hr, rfl⟩, if_pos hav⟩, ?_⟩
        exact Setoid.trans hbv (Setoid.trans (Setoid.symm hav) haw)
      · exact ⟨a, ⟨_, ⟨hr, rfl⟩, by rw [if_neg hav, if_pos hbv]⟩, haw⟩
  · rintro ⟨u, ⟨⟨k, a, b⟩, ⟨hr, rfl⟩, hu⟩, huw⟩
    refine ⟨_, hr, equal_equiv_iff.2 ⟨rfl, ?_⟩⟩
    dsimp only at hu
    split at hu
    next hav =>
      cases hu
      exact .inl ⟨hav, huw⟩
    next =>
      obtain ⟨hbv, rfl⟩ := Option.ite_some_none_eq_some.1 hu
      exact .inr ⟨huw, hbv⟩

end State

end Pathwise
