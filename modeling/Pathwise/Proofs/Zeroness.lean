import Pathwise.Detector.DivisionByZero
import Pathwise.Proofs.Admission
import Pathwise.Proofs.Deduction

namespace Pathwise

open Detector.DivisionByZero Outcomes

/-- What a constraint on a value says is so. Truth and zeroness are about the datum that the value
stands for; what constraints of other domains say is left to `other`. -/
structure Constraint.TrueOf (id : Nat) (other : Value → Constraint → Prop) (ρ : Valuation) (v : Value)
    (c : Constraint) : Prop where
  of_truth : ∀ b, c = .truth b → v.eval ρ = some (.bool b)
  of_zero : c = zero id → v.eval ρ = some (.int 0)
  of_nonZero : c = nonZero id → ∃ i, v.eval ρ = some (.int i) ∧ i ≠ 0
  of_other : (∀ b, c ≠ .truth b) → c ≠ zero id → c ≠ nonZero id → other v c

def Constraint.IsZeroness (id : Nat) (c : Constraint) : Prop := c = zero id ∨ c = nonZero id

structure State.TrueOf (id : Nat) (other : Value → Constraint → Prop) (ρ : Valuation) (s : State) :
    Prop where
  constraints : ∀ {v d c}, s.constraint? v d = some c → c.TrueOf id other ρ v
  relations : ∀ r ∈ s.relations.toList, r.Holds ρ

/-- The operands of the comparisons in a condition. -/
def Value.compared : Value → List Value
  | simple _ | boolean _ => []
  | not _ v => v.compared
  | binary _ _ l r => l.compared ++ r.compared
  | relational _ l r => [l, r]

def State.compared (s : State) : List Value := s.relations.toList.flatMap fun r => [r.left, r.right]

section

variable {id : Nat} {other : Value → Constraint → Prop} {ρ : Valuation} {v w : Value}
  {c c' : Constraint} {k : Relation.Kind}

theorem Constraint.trueOf_truth {b : Bool} (h : v.eval ρ = some (.bool b)) :
    (Constraint.truth b).TrueOf id other ρ v where
  of_truth := by
    rintro _ ⟨⟩
    exact h
  of_zero hc := by cases hc
  of_nonZero hc := by cases hc
  of_other hne := absurd rfl (hne b)

theorem Constraint.trueOf_zero (h : v.eval ρ = some (.int 0)) : (zero id).TrueOf id other ρ v where
  of_truth _ hc := by cases hc
  of_zero _ := h
  of_nonZero hc := by cases hc
  of_other _ hne := absurd rfl hne

theorem Constraint.trueOf_nonZero {i : Int} (h : v.eval ρ = some (.int i)) (hi : i ≠ 0) :
    (nonZero id).TrueOf id other ρ v where
  of_truth _ hc := by cases hc
  of_zero hc := by cases hc
  of_nonZero _ := ⟨i, h, hi⟩
  of_other _ _ hne := absurd rfl hne

theorem Constraint.IsZeroness.unique (hc : c.IsZeroness id) (hc' : c'.IsZeroness id)
    (h : c.TrueOf id other ρ v) (h' : c'.TrueOf id other ρ v) : c = c' := by
  have hcontra (hzero : (zero id).TrueOf id other ρ v) (hnonZero : (nonZero id).TrueOf id other ρ v) :
      False := by
    obtain ⟨i, hi, hne⟩ := hnonZero.of_nonZero rfl
    cases (hzero.of_zero rfl).symm.trans hi
    exact hne rfl
  rcases hc with rfl | rfl
  · rcases hc' with rfl | rfl
    · rfl
    · exact (hcontra h h').elim
  · rcases hc' with rfl | rfl
    · exact (hcontra h' h).elim
    · rfl

theorem Constraint.IsZeroness.copyOver (hc : c.IsZeroness id) (h : c.TrueOf id other ρ v) {a b : Int}
    (hv : v.eval ρ = some (.int a)) (hw : w.eval ρ = some (.int b))
    (hk : k.decide? a b = some true ∨ k.decide? b a = some true) (hcopy : c.copyOver k = some c') :
    c'.IsZeroness id ∧ c'.TrueOf id other ρ w := by
  rcases hc with rfl | rfl
  · cases hv.symm.trans (h.of_zero rfl)
    cases k with
    | equal =>
      cases hcopy
      have hb : b = 0 := by grind [Relation.Kind.decide?]
      exact ⟨.inl rfl, trueOf_zero (hb ▸ hw)⟩
    | notEqual =>
      cases hcopy
      have hb : b ≠ 0 := by grind [Relation.Kind.decide?]
      exact ⟨.inr rfl, trueOf_nonZero hw hb⟩
    | greaterOrEqual | lessThan => cases hcopy
    | valueEqual | valueNotEqual => simp [Relation.Kind.decide?] at hk
  · obtain ⟨i, hi, hne⟩ := h.of_nonZero rfl
    cases hv.symm.trans hi
    cases k with
    | equal =>
      cases hcopy
      have hb : b = a := by grind [Relation.Kind.decide?]
      exact ⟨.inr rfl, trueOf_nonZero hw (hb ▸ hne)⟩
    | notEqual | greaterOrEqual | lessThan => cases hcopy
    | valueEqual | valueNotEqual => simp [Relation.Kind.decide?] at hk

end

/-- The value is written like one of these, up to the order of operands. -/
def Scoped (scope : List Value) (v : Value) : Prop := ∃ w ∈ scope, v ≈ w

/-- The state is true, it compares values of the scope only, and of these it knows nothing but
whether they are zero. -/
structure State.Confined (id : Nat) (other : Value → Constraint → Prop) (ρ : Valuation)
    (scope : List Value) (s : State) : Prop where
  isTrue : s.TrueOf id other ρ
  operands : ∀ r ∈ s.relations.toList, Scoped scope r.left ∧ Scoped scope r.right
  plain : ∀ {v d c}, Scoped scope v → s.constraint? v d = some c → c.IsZeroness id

/-- What an assumption may come to: the truth of a condition that compares values of the scope, or
whether a value of the scope is zero. -/
inductive Arises (id : Nat) (other : Value → Constraint → Prop) (ρ : Valuation)
    (scope : List Value) (v : Value) : Constraint → Prop
  | truth {b} : v.eval ρ = some (.bool b) → (∀ w ∈ v.compared, Scoped scope w) →
      Arises id other ρ scope v (.truth b)
  | zeroness {c} : c.IsZeroness id → c.TrueOf id other ρ v → Scoped scope v →
      Arises id other ρ scope v c

section

variable {id : Nat} {other : Value → Constraint → Prop} {ρ : Valuation} {scope : List Value}
  {s t : State} {v : Value} {c : Constraint} {b : Bool}

theorem Arises.of_truth (h : Arises id other ρ scope v (.truth b)) :
    v.eval ρ = some (.bool b) ∧ ∀ w ∈ v.compared, Scoped scope w := by
  cases h with
  | truth hv hcompared => exact ⟨hv, hcompared⟩
  | zeroness hc => rcases hc with hc | hc <;> cases hc

theorem Arises.trueOf (h : Arises id other ρ scope v c) {w : Value} (hvw : v ≈ w) :
    c.TrueOf id other ρ w := by
  cases h with
  | truth hv => exact Constraint.trueOf_truth (Value.eval_congr hvw ▸ hv)
  | zeroness hc htrue =>
    rcases hc with rfl | rfl
    · exact Constraint.trueOf_zero (Value.eval_congr hvw ▸ htrue.of_zero rfl)
    · obtain ⟨i, hi, hne⟩ := htrue.of_nonZero rfl
      exact Constraint.trueOf_nonZero (Value.eval_congr hvw ▸ hi) hne

theorem Arises.isZeroness (hscope : ∀ w ∈ scope, ∃ i, w.eval ρ = some (.int i))
    (h : Arises id other ρ scope v c) (hv : Scoped scope v) : c.IsZeroness id := by
  cases h with
  | zeroness hc => exact hc
  | truth heval =>
    obtain ⟨w, hw, hvw⟩ := hv
    obtain ⟨i, hi⟩ := hscope w hw
    rw [Value.eval_congr hvw, hi] at heval
    cases heval

theorem State.Confined.eq_of_constraint? (hs : s.Confined id other ρ scope)
    (h : Arises id other ρ scope v c) {c' : Constraint} (hc' : s.constraint? v c.domain = some c') :
    c' = c := by
  have htrue := hs.isTrue.constraints hc'
  cases h with
  | @truth b hv =>
    have hdomain : c'.domain = .boolean := constraint?_domain hc'
    cases c' with
    | truth b' =>
      cases (htrue.of_truth b' rfl).symm.trans hv
      rfl
    | null | notNull | custom => cases hdomain
  | zeroness hc htrue' hv => exact (hs.plain hv hc').unique hc htrue htrue'

theorem State.Confined.constrain? (hscope : ∀ w ∈ scope, ∃ i, w.eval ρ = some (.int i))
    (hs : s.Confined id other ρ scope) (h : Arises id other ρ scope v c) :
    ∃ t, s.constrain? v c = some t ∧ t.Confined id other ρ scope := by
  obtain ⟨t, ht⟩ := exists_constrain? fun c' hc' => hs.eq_of_constraint? h hc'
  have hrelations : t.relations = s.relations := relations_of_constrain? ht
  refine ⟨t, ht, ⟨fun {w d c'} hc' => ?_, ?_⟩, ?_, fun {w d c'} hw hc' => ?_⟩
  · rw [constraint?_of_constrain? ht] at hc'
    split at hc'
    next hvw =>
      cases hc'
      exact h.trueOf hvw.1
    next => exact hs.isTrue.constraints hc'
  · rw [hrelations]
    exact hs.isTrue.relations
  · rw [hrelations]
    exact hs.operands
  · rw [constraint?_of_constrain? ht] at hc'
    split at hc'
    next hvw =>
      cases hc'
      obtain ⟨u, hu, hwu⟩ := hw
      exact h.isZeroness hscope ⟨u, hu, Setoid.trans hvw.1 hwu⟩
    next => exact hs.plain hw hc'

theorem State.Confined.learn (hs : s.Confined id other ρ scope) {r : Relation} (hr : r.Holds ρ)
    (hscoped : Scoped scope r.left ∧ Scoped scope r.right) :
    (s.learn r).Confined id other ρ scope := by
  refine ⟨⟨hs.isTrue.constraints, fun r' hr' => ?_⟩, fun r' hr' => ?_, hs.plain⟩
  · rcases Relations.mem_insert hr' with rfl | hr'
    · exact hr
    · exact hs.isTrue.relations r' hr'
  · rcases Relations.mem_insert hr' with rfl | hr'
    · exact hscoped
    · exact hs.operands r' hr'

theorem admits_confined (hscope : ∀ w ∈ scope, ∃ i, w.eval ρ = some (.int i)) :
    Admits (Arises id other ρ scope)
      (fun r => r.Holds ρ ∧ Scoped scope r.left ∧ Scoped scope r.right)
      (State.Confined id other ρ scope) where
  not h := by
    obtain ⟨hv, hcompared⟩ := h.of_truth
    obtain ⟨a, ha, hb⟩ := Value.eval_not_eq_some.1 hv
    cases hb
    rw [Bool.not_not]
    exact .truth ha hcompared
  binary h := by
    obtain ⟨hv, hcompared⟩ := h.of_truth
    obtain ⟨a, a', hl, hr, hb⟩ := Value.eval_binary_eq_some.1 hv
    cases hb
    refine ⟨a, a', .truth hl fun w hw => ?_, .truth hr fun w hw => ?_, rfl⟩
    · exact hcompared w (List.mem_append_left _ hw)
    · exact hcompared w (List.mem_append_right _ hw)
  relational {r b} h := by
    obtain ⟨hv, hcompared⟩ := h.of_truth
    have hl := hcompared r.left (.head _)
    have hr := hcompared r.right (.tail _ (.head _))
    refine ⟨Relation.holds_of_eval hv, ?_⟩
    cases b <;> exact ⟨hl, hr⟩
  constrain hs h := hs.constrain? hscope h
  known hs hr := ⟨hs.isTrue.relations _ hr, hs.operands _ hr⟩
  learn hs hr := hs.learn hr.1 hr.2
  deduce hr hs h := ⟨Relation.deduce?_holds hr.1 hs.1 h, Relation.deduce?_operands hr.2 hs.2 h⟩
  resolve hs hr h := Relation.not_holds_of_resolve hs.isTrue.relations h hr.1
  carry {s r v w c c'} hs hr hvw hc hcopy := by
    obtain ⟨hholds, hleft, hright⟩ := hr
    obtain ⟨a, b, hl, hr, hk⟩ := Relation.holds_iff.1 hholds
    have htrue := hs.isTrue.constraints hc
    rcases hvw with ⟨rfl, rfl⟩ | ⟨rfl, rfl⟩
    · obtain ⟨hzeroness, htrue'⟩ := (hs.plain hleft hc).copyOver htrue hl hr (.inl hk) hcopy
      exact .zeroness hzeroness htrue' hright
    · obtain ⟨hzeroness, htrue'⟩ := (hs.plain hright hc).copyOver htrue hr hl (.inr hk) hcopy
      exact .zeroness hzeroness htrue' hleft

theorem Value.eval_compared {d : Datum} (h : v.eval ρ = some d) :
    ∀ w ∈ v.compared, ∃ i, w.eval ρ = some (.int i) := by
  induction v generalizing d with
  | simple | boolean => exact List.forall_mem_nil _
  | not id v ih =>
    obtain ⟨b, hv, _⟩ := eval_not_eq_some.1 h
    exact ih hv
  | binary id op l r ihl ihr =>
    obtain ⟨a, b, hl, hr, _⟩ := eval_binary_eq_some.1 h
    intro w hw
    rcases List.mem_append.1 hw with hw | hw
    · exact ihl hl w hw
    · exact ihr hr w hw
  | relational k l r =>
    obtain ⟨a, b, _, hl, hr, _⟩ := eval_relational_eq_some.1 h
    intro w hw
    rcases List.mem_cons.1 hw with rfl | hw
    · exact ⟨a, hl⟩
    · cases List.mem_singleton.1 hw
      exact ⟨b, hr⟩

theorem State.TrueOf.eval_compared (hs : s.TrueOf id other ρ) :
    ∀ w ∈ s.compared, ∃ i, w.eval ρ = some (.int i) := by
  intro w hw
  obtain ⟨r, hr, hw⟩ := List.mem_flatMap.1 hw
  exact Value.eval_compared (v := r.toValue) (hs.relations r hr) w hw

end

/-- Take a valuation for which all that the state knows is true and the condition is `b`. If the
numbers that the condition and the known relations compare are subject to no constraints but of
zeroness, the valuation makes one of the outcomes of assuming `b` true. -/
theorem Value.assume_feasible {id : Nat} {other : Value → Constraint → Prop} {ρ : Valuation}
    {s : State} (hs : s.TrueOf id other ρ) {v : Value} {b : Bool} (hv : v.eval ρ = some (.bool b))
    (hplain : ∀ w ∈ v.compared ++ s.compared, ∀ d c, s.constraint? w d = some c →
      c = zero id ∨ c = nonZero id)
    {budget : Budget} {states : List State} (h : v.assume (.truth b) budget s = .ok states) :
    ∃ t ∈ states, t.TrueOf id other ρ := by
  have hscope : ∀ w ∈ v.compared ++ s.compared, ∃ i, w.eval ρ = some (.int i) := by
    intro w hw
    rcases List.mem_append.1 hw with hw | hw
    · exact eval_compared hv w hw
    · exact hs.eval_compared w hw
  have hscoped {w : Value} (hw : w ∈ v.compared ++ s.compared) :
      Scoped (v.compared ++ s.compared) w := ⟨w, hw, Setoid.refl w⟩
  have hoperand {r : Relation} (hr : r ∈ s.relations.toList) {w : Value}
      (hw : w ∈ [r.left, r.right]) : Scoped (v.compared ++ s.compared) w :=
    hscoped (List.mem_append_right _ (List.mem_flatMap.2 ⟨r, hr, hw⟩))
  have hconfined : s.Confined id other ρ (v.compared ++ s.compared) := by
    refine ⟨hs, fun r hr => ⟨hoperand hr (.head _), hoperand hr (.tail _ (.head _))⟩, ?_⟩
    rintro w d c ⟨u, hu, hwu⟩ hc
    exact hplain u hu d c (State.constraint?_congr hwu d ▸ hc)
  have harises : Arises id other ρ (v.compared ++ s.compared) v (.truth b) :=
    .truth hv fun w hw => hscoped (List.mem_append_left _ hw)
  obtain ⟨t, ht, htrue⟩ := (admits_confined hscope).assume_keeps harises budget hconfined h
  exact ⟨t, ht, htrue.isTrue⟩

/-- Two numbers and a flag in variables; the first number is zero, and not less than the second. -/
def State.bounded : State where
  stack := []
  vars := .ofList [("p", .simple 5), ("x", .simple 3), ("y", .simple 4)]
  constraints := .ofList [(.simple 3, .ofList [zero 0])]
  relations := .ofList [⟨.greaterOrEqual, .simple 3, .simple 4⟩]
  exit? := none
  visits := ∅

theorem State.constraint?_bounded {v : Value} {d : Domain} {c : Constraint}
    (h : State.bounded.constraint? v d = some c) : v ≈ .simple 3 ∧ c = zero 0 := by
  have hlist : State.bounded.constraints.toList = [(.simple 3, .ofList [zero 0])] := by
    decide +kernel
  have hheld : (.ofList [zero 0] : ConstraintSet).toList = [zero 0] := by decide +kernel
  obtain ⟨held, hv, hget⟩ := Option.bind_eq_some_iff.1 h
  obtain ⟨e, he, hev, rfl⟩ := constraintsOf?_eq_some.1 hv
  rw [hlist] at he
  cases List.mem_singleton.1 he
  have hc := (Keyed.find?_eq_some_iff.1 hget).1
  rw [hheld] at hc
  exact ⟨Setoid.symm hev, List.mem_singleton.1 hc⟩

def Value.unsetAndDifferent : Value :=
  .binary 7 .and (.not 6 (.simple 5)) (.relational .notEqual (.simple 3) (.simple 4))

def Valuation.negative : Valuation := fun id =>
  if id = 3 then .int 0 else if id = 4 then .int (-2) else .bool false

theorem assume_feasible_bounded :
    State.bounded.TrueOf 0 (fun _ _ => False) .negative ∧
      Value.unsetAndDifferent.eval .negative = some (.bool true) ∧
      ∃ states, Value.unsetAndDifferent.assume (.truth true) {} .bounded = .ok states ∧
        ∃ t ∈ states, t.TrueOf 0 (fun _ _ => False) .negative := by
  have hs : State.bounded.TrueOf 0 (fun _ _ => False) .negative := by
    refine ⟨fun hc => ?_, by simp only [Relation.Holds]; decide +kernel⟩
    obtain ⟨hv, rfl⟩ := State.constraint?_bounded hc
    exact Constraint.trueOf_zero (Value.eval_congr hv)
  have hv : Value.unsetAndDifferent.eval .negative = some (.bool true) := by decide
  have hok : (Value.unsetAndDifferent.assume (.truth true) {} .bounded).isOk := by decide +kernel
  cases h : Value.unsetAndDifferent.assume (.truth true) {} .bounded with
  | error e => exact absurd h (ne_error_of_isOk hok e)
  | ok states =>
    refine ⟨hs, hv, states, rfl, Value.assume_feasible hs hv (fun w _ d c hc => ?_) h⟩
    exact .inl (State.constraint?_bounded hc).2

end Pathwise
