import Pathwise.Proofs.Closure
import Pathwise.Proofs.Constraints

namespace Pathwise

namespace Value

variable {u v w : Value}

theorem normal_normal (v : Value) : v.normal.normal = v.normal := by
  induction v with
  | simple | boolean => rfl
  | not _ _ ih => simp only [normal, ih]
  | binary _ _ _ _ ihl ihr => simp only [normal, ihl, ihr]
  | relational k l r ihl ihr =>
    rcases oriented_eq_or k l.normal r.normal with h | ⟨hk, h⟩
    · simp only [normal, h, ihl, ihr]
    · simp only [normal, h, ihl, ihr, oriented_comm hk r.normal]

theorem normal_equiv (v : Value) : v.normal ≈ v := v.normal_normal

theorem equiv_congr_left (h : v ≈ w) (u : Value) : v ≈ u ↔ w ≈ u :=
  ⟨Setoid.trans (Setoid.symm h), Setoid.trans h⟩

theorem equiv_congr_right (h : v ≈ w) (u : Value) : u ≈ v ↔ u ≈ w :=
  ⟨(Setoid.trans · h), (Setoid.trans · (Setoid.symm h))⟩

theorem size_normal (v : Value) : v.normal.size = v.size := by
  induction v with
  | simple | boolean => rfl
  | not _ _ ih => simp only [normal, size, ih]
  | binary _ _ _ _ ihl ihr => simp only [normal, size, ihl, ihr]
  | relational k l r ihl ihr =>
    rcases oriented_eq_or k l.normal r.normal with h | ⟨_, h⟩
    · simp only [normal, h, size, ihl, ihr]
    · simp only [normal, h, size, ihl, ihr, Nat.add_comm r.size]

theorem size_congr (h : v ≈ w) : v.size = w.size := by
  rw [← size_normal v, equiv_iff.1 h, size_normal]

theorem isConstant_congr (h : v ≈ w) : v.isConstant = w.isConstant := by
  have hnormal (v : Value) : v.normal.isConstant = v.isConstant := by
    cases v with
    | relational k l r =>
      rcases oriented_eq_or k l.normal r.normal with h | ⟨_, h⟩ <;> rw [normal, h] <;> rfl
    | _ => rfl
  rw [← hnormal v, equiv_iff.1 h, hnormal]

theorem references_normal (v u : Value) : v.normal.references u = v.references u := by
  have hhead {v w : Value} (h : v ≈ w) : decide (v ≈ u) = decide (w ≈ u) :=
    decide_eq_decide.2 (equiv_congr_left h u)
  induction v with
  | simple | boolean => rfl
  | not id v ih =>
    have heq : not id v.normal ≈ not id v := (not id v).normal_equiv
    simp only [normal, references, hhead heq, ih]
  | binary id op l r ihl ihr =>
    have heq : binary id op l.normal r.normal ≈ binary id op l r := (binary id op l r).normal_equiv
    simp only [normal, references, hhead heq, ihl, ihr]
  | relational k l r ihl ihr =>
    have heq : oriented k l.normal r.normal ≈ relational k l r := (relational k l r).normal_equiv
    rcases oriented_eq_or k l.normal r.normal with h | ⟨_, h⟩ <;> rw [h] at heq
    · simp only [normal, h, references, hhead heq, ihl, ihr]
    · simp only [normal, h, references, hhead heq, ihl, ihr, Bool.or_comm (r.references u)]

theorem references_congr {u w : Value} (h : u ≈ w) (v : Value) :
    v.references u = v.references w := by
  have hhead (v : Value) : decide (v ≈ u) = decide (v ≈ w) :=
    decide_eq_decide.2 (equiv_congr_right h v)
  induction v with
  | simple | boolean => simp only [references, hhead]
  | not _ _ ih => simp only [references, hhead, ih]
  | binary _ _ _ _ ihl ihr => simp only [references, hhead, ihl, ihr]
  | relational _ _ _ ihl ihr => simp only [references, hhead, ihl, ihr]

theorem references_of_equiv (h : v ≈ w) (u : Value) : v.references u = w.references u := by
  rw [← references_normal v, equiv_iff.1 h, references_normal]

theorem induction_operands {P : Value → Prop} (h : ∀ v, (∀ w ∈ v.operands, P w) → P v)
    (v : Value) : P v := by
  induction v with
  | simple | boolean => exact h _ (List.forall_mem_nil _)
  | not _ _ ih => exact h _ (List.forall_mem_singleton.2 ih)
  | binary _ _ _ _ ihl ihr | relational _ _ _ ihl ihr =>
    exact h _ (List.forall_mem_cons.2 ⟨ihl, List.forall_mem_singleton.2 ihr⟩)

theorem size_lt_of_mem_operands (h : w ∈ v.operands) : w.size < v.size := by
  cases v <;> simp only [operands, List.mem_cons, List.not_mem_nil, or_false] at h
  case not => simp [h, size]
  case binary | relational => rcases h with rfl | rfl <;> simp only [size] <;> omega

theorem references_iff : v.references u ↔ v ≈ u ∨ ∃ w ∈ v.operands, w.references u := by
  cases v <;> simp [references, operands]

theorem references_trans (hvu : v.references u) (huw : u.references w) : v.references w := by
  induction v using induction_operands with
  | h v ih =>
    rcases references_iff.1 hvu with heq | ⟨x, hx, hxu⟩
    · rwa [references_of_equiv heq]
    · exact references_iff.2 (.inr ⟨x, hx, ih x hx hxu⟩)

end Value

namespace Values

variable {seen seen' : Values} {v w x : Value} {inner : Value → Prop}

theorem has_empty (v : Value) : ¬ has ∅ v := Bool.false_ne_true

theorem has_insert : has (seen.insert v) w ↔ v ≈ w ∨ seen.has w := by
  rw [has, Keyed.contains_insert, Std.LawfulEqCmp.compare_eq_iff_eq, Value.toClass_eq_iff, has]

theorem collect_eq (seen : Values) (v : Value) :
    seen.collect v = if seen.has v then seen else v.operands.foldl collect (seen.insert v) := by
  cases v <;> rw [collect] <;> rfl

/-- With an inner value that was seen, its operands at any depth were seen too. -/
def ClosedOn (inner : Value → Prop) (seen : Values) : Prop :=
  ∀ v w, inner v → seen.has v → v.references w → seen.has w

theorem ClosedOn.insert (h : ClosedOn inner seen) (hv : ∀ w, v ≈ w → ¬ inner w) :
    ClosedOn inner (seen.insert v) := by
  intro u w hinner hu huw
  rcases has_insert.1 hu with heq | hu
  · exact absurd hinner (hv u heq)
  · exact has_insert.2 (.inr (h u w hinner hu huw))

def Adds (v : Value) (seen seen' : Values) : Prop :=
  ∀ w, seen'.has w ↔ seen.has w ∨ v.references w

theorem Adds.closedOn (h : Adds v seen seen') (hseen : ClosedOn inner seen) :
    ClosedOn inner seen' := by
  intro u w hinner hu huw
  rcases (h u).1 hu with hu | hvu
  · exact (h w).2 (.inl (hseen u w hinner hu huw))
  · exact (h w).2 (.inr (Value.references_trans hvu huw))

theorem has_foldl_collect {vs : List Value} (hseen : ClosedOn inner seen)
    (hvs : ∀ v ∈ vs, ∀ seen, ClosedOn inner seen → Adds v seen (seen.collect v)) (w : Value) :
    has (vs.foldl collect seen) w ↔ seen.has w ∨ ∃ v ∈ vs, v.references w := by
  induction vs generalizing seen with
  | nil => simp
  | cons v vs ih =>
    have hadds := hvs v (.head _) seen hseen
    rw [List.foldl_cons, ih (hadds.closedOn hseen) fun v' hv' => hvs v' (.tail _ hv'), hadds w]
    simp only [List.mem_cons, exists_eq_or_imp, or_assoc]

/-- Passing over a value that was seen does no harm. It is no larger than the value that is to be
collected, so no operand of it is left to be looked at. -/
theorem adds_collect (v : Value) (seen : Values) (h : ClosedOn (·.size ≤ v.size) seen) :
    Adds v seen (seen.collect v) := by
  induction v using Value.induction_operands generalizing seen with
  | h v ih =>
    intro w
    rw [collect_eq]
    split
    next hv => exact ⟨.inl, fun hw => hw.elim id (h v w (Nat.le_refl _) hv)⟩
    next hv =>
      have hclosed : ClosedOn (·.size < v.size) (seen.insert v) := by
        apply ClosedOn.insert
        · intro u x hu
          exact h u x (Nat.le_of_lt hu)
        · intro x hx hlt
          rw [Value.size_congr hx] at hlt
          exact Nat.lt_irrefl _ hlt
      rw [has_foldl_collect hclosed, has_insert, Value.references_iff, or_comm (a := v ≈ w),
        or_assoc]
      intro x hx seen' hseen'
      refine ih x hx seen' fun u y hu => hseen' u y ?_
      exact Nat.lt_of_le_of_lt hu (Value.size_lt_of_mem_operands hx)

end Values

namespace State

variable {s : State} {v w : Value} {c : Constraint} {d : Domain}

theorem canReach_congr (h : v ≈ w) : s.canReach v = s.canReach w := by
  unfold canReach
  simp only [Value.references_congr h]

/-- The values that are collected are those that a search for them finds. -/
theorem has_reachable (s : State) (v : Value) : s.reachable.has v = s.canReach v := by
  have hempty : Values.ClosedOn (fun _ => True) ∅ := fun u _ _ hu => absurd hu (Values.has_empty u)
  rw [Bool.eq_iff_iff, reachable, Values.has_foldl_collect hempty, canReach, List.any_eq_true]
  · simp [Values.has_empty]
  · intro v _ seen hseen
    exact Values.adds_collect v seen fun u w _ => hseen u w trivial

theorem cleanup_eq (s : State) :
    s.cleanup = { s with
      constraints := s.constraints.filter fun e =>
        e.1.isConstant || s.canReach e.1 || !e.2.isDisposable
      relations := s.relations.filter fun r =>
        !r.left.isConstant && s.canReach r.left || !r.right.isConstant && s.canReach r.right } := by
  simp only [cleanup, has_reachable]

theorem canReach_cleanup (s : State) (v : Value) : s.cleanup.canReach v = s.canReach v := rfl

theorem mem_constraints_cleanup {held : ConstraintSet} :
    (v, held) ∈ s.cleanup.constraints.toList ↔ (v, held) ∈ s.constraints.toList ∧
      (v.isConstant ∨ s.canReach v ∨ ∃ c ∈ held.toList, ¬ c.isDisposable) := by
  rw [cleanup_eq, Keyed.toList_filter, List.mem_filter]
  simp [ConstraintSet.isDisposable, or_assoc]

theorem mem_relations_cleanup {r : Relation} :
    r ∈ s.cleanup.relations.toList ↔ r ∈ s.relations.toList ∧
      ∃ v, (v = r.left ∨ v = r.right) ∧ ¬ v.isConstant ∧ s.canReach v := by
  rw [cleanup_eq, Keyed.toList_filter, List.mem_filter]
  simp [or_and_right, exists_or]

/-- What is known about a value stays known as long as it can be observed; nothing is made up. -/
theorem constraintsOf?_cleanup {held : ConstraintSet} :
    s.cleanup.constraintsOf? v = some held ↔ s.constraintsOf? v = some held ∧
      (v.isConstant ∨ s.canReach v ∨ ∃ c ∈ held.toList, ¬ c.isDisposable) := by
  simp only [constraintsOf?_eq_some]
  constructor
  · rintro ⟨⟨w, held⟩, he, hw, rfl⟩
    obtain ⟨he, hkept⟩ := mem_constraints_cleanup.1 he
    rw [Value.isConstant_congr hw, canReach_congr hw] at hkept
    exact ⟨⟨_, he, hw, rfl⟩, hkept⟩
  · rintro ⟨⟨⟨w, held⟩, he, hw, rfl⟩, hkept⟩
    rw [← Value.isConstant_congr hw, ← canReach_congr hw] at hkept
    exact ⟨_, mem_constraints_cleanup.2 ⟨he, hkept⟩, hw, rfl⟩

theorem constraint?_of_cleanup (h : s.cleanup.constraint? v d = some c) :
    s.constraint? v d = some c := by
  obtain ⟨held, hheld, hget⟩ := Option.bind_eq_some_iff.1 h
  rw [constraint?, (constraintsOf?_cleanup.1 hheld).1]
  exact hget

theorem constraint?_cleanup (hv : s.canReach v) (d : Domain) :
    s.cleanup.constraint? v d = s.constraint? v d := by
  have hheld : s.cleanup.constraintsOf? v = s.constraintsOf? v := by
    refine Option.ext fun held => constraintsOf?_cleanup.trans ?_
    exact and_iff_left (.inr (.inl hv))
  rw [constraint?, hheld, constraint?]

theorem has_of_cleanup {r : Relation} (h : s.cleanup.relations.has r) : s.relations.has r := by
  obtain ⟨e, he, her⟩ := Relations.has_iff.1 h
  exact Relations.has_iff.2 ⟨e, (mem_relations_cleanup.1 he).1, her⟩

theorem cleanup_cleanup (s : State) : s.cleanup.cleanup = s.cleanup := by
  have hreach : s.cleanup.canReach = s.canReach := funext s.canReach_cleanup
  rw [cleanup_eq s.cleanup, hreach, cleanup_eq s]
  simp only [Keyed.filter_filter_self]

/-- Cleaning up keeps what can be observed and forgets the rest: a value keeps its constraints, as
they are, just if it is a literal constant, can be reached or holds a constraint that must outlive
it, and a relation is kept just if one of its operands can be reached and is no literal constant. -/
theorem cleanup_keeps_observable (s : State) :
    (s.cleanup.stack = s.stack ∧ s.cleanup.vars = s.vars ∧ s.cleanup.exit? = s.exit? ∧
        s.cleanup.visits = s.visits) ∧
      (∀ v held, (v, held) ∈ s.cleanup.constraints.toList ↔ (v, held) ∈ s.constraints.toList ∧
        (v.isConstant ∨ s.canReach v ∨ ∃ c ∈ held.toList, ¬ c.isDisposable)) ∧
      (∀ r, r ∈ s.cleanup.relations.toList ↔ r ∈ s.relations.toList ∧
        ∃ v, (v = r.left ∨ v = r.right) ∧ ¬ v.isConstant ∧ s.canReach v) ∧
      (∀ v, s.cleanup.canReach v = s.canReach v) ∧
      s.cleanup.cleanup = s.cleanup :=
  ⟨⟨rfl, rfl, rfl, rfl⟩, fun _ _ => mem_constraints_cleanup, fun _ => mem_relations_cleanup,
    s.canReach_cleanup, s.cleanup_cleanup⟩

end State

end Pathwise
