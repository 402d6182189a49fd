import Pathwise.Proofs.Effects
import Pathwise.Proofs.Orders
import Pathwise.Proofs.Registry

namespace Pathwise

def Supply.Made (supply left : Supply) (v : Value) : Prop :=
  ∃ id, v.id? = some id ∧ supply.next ≤ id ∧ id < left.next

namespace Instruction

variable {i : Instruction} {s t : State} {supply left : Supply} {f : Failure}

theorem execute_eq_error_iff : i.execute s supply = .error f ↔ i.Lacks s f := by
  constructor
  · exact execute_eq_error
  · intro h
    cases h with
    | operands hlt =>
      cases hexecute : i.execute s supply with
      | ok r => exact absurd (execute_executed hexecute).operands_le (Nat.not_le_of_lt hlt)
      | error f =>
        cases execute_eq_error hexecute with
        | operands => rfl
        | binding hread =>
          -- reading takes no operands
          subst hread
          exact absurd hlt (Nat.not_lt_zero _)
    | binding hread hnone =>
      subst hread
      simp only [execute, hnone]

theorem lacks_stackUnderflow_iff :
    i.Lacks s (.stackUnderflow i.operands s.stack.length) ↔ s.stack.length < i.operands := by
  constructor
  · intro h
    cases h with
    | operands hlt => exact hlt
  · exact .operands

theorem lacks_unboundVariable_iff {var : String} :
    i.Lacks s (.unboundVariable var) ↔ (∃ pos, i = .read var pos) ∧ s.value? var = none := by
  constructor
  · intro h
    cases h with
    | binding hread hnone => exact ⟨⟨_, hread⟩, hnone⟩
  · rintro ⟨⟨pos, hread⟩, hnone⟩
    exact .binding hread hnone

/-- A call completes just if its operands are there. -/
theorem exists_execute_iff {method : Method} (hcallee : i.callee? = some method) :
    (∃ r, i.execute s supply = .ok r) ↔ i.operands ≤ s.stack.length := by
  constructor
  · rintro ⟨⟨t, left⟩, h⟩
    exact (execute_executed h).operands_le
  · intro hoperands
    apply exists_execute
    intro f hlacks
    exact Nat.not_lt_of_le hoperands (hlacks.lt_operands hcallee)

theorem abrupt?_eq_ok_iff {method : Method} (hcallee : i.callee? = some method)
    (hthrows : method.mayThrow) {t? : Option State} :
    i.abrupt? s = .ok t? ↔
      i.operands ≤ s.stack.length ∧ t? = some { s with stack := s.stack.drop i.operands } := by
  rw [abrupt?_eq, hcallee, Option.any_some, if_pos hthrows]
  split
  next hoperands =>
    rw [Except.ok.injEq, and_iff_right hoperands]
    exact eq_comm
  next hlt =>
    constructor
    · intro h
      cases h
    · rintro ⟨hoperands, _⟩
      exact absurd hoperands hlt

/-- The instruction leads from one state to the other, and leaves alone what it does not use: the
rest of the stack, the variables that it does not assign, the constraints of all values that were not
made for it, and all else. -/
structure Spares (i : Instruction) (supply left : Supply) (s t : State) : Prop where
  stack : s.stack.drop i.operands <:+ t.stack
  vars : ∀ var, i.assigned? ≠ some var → t.value? var = s.value? var
  constraints : ∀ v, ¬ supply.Made left v →
    t.constraints.find? v.toClass = s.constraints.find? v.toClass
  relations : t.relations = s.relations
  exit? : t.exit? = s.exit?
  visits : t.visits = s.visits

theorem Creates.left_eq (h : i.Creates) (hexecute : i.execute s supply = .ok (t, left)) :
    left = supply.fresh.2 := by
  rcases h with ⟨text, pos, rfl⟩ | ⟨method, arguments, pos, rfl⟩
  · cases hexecute
    rfl
  · obtain ⟨_, _, hexecute⟩ := bind_eq_ok.1 hexecute
    cases hexecute
    rfl

theorem execute_spares (h : i.execute s supply = .ok (t, left)) : i.Spares supply left s t := by
  have hexecuted := execute_executed h
  obtain ⟨vs, _, hstack⟩ := hexecuted.stack
  refine ⟨⟨vs, hstack.symm⟩, fun var hvar => ?_, fun v hv => ?_, hexecuted.relations,
    hexecuted.exit?, hexecuted.visits⟩
  · rw [hexecuted.value?_eq, if_neg hvar]
  · rcases hexecuted.constraints with hconstraints | ⟨hcreates, hconstraints⟩
    · rw [hconstraints]
    · rw [hconstraints]
      apply State.find?_constrain
      intro hequiv
      -- only the new object itself is equivalent to it
      cases Value.equiv_simple.1 (Setoid.symm hequiv)
      apply hv
      rw [hcreates.left_eq h]
      exact ⟨supply.next, rfl, Nat.le_refl _, Nat.lt_succ_self _⟩

/-- An instruction fails for want of operands exactly where the stack is too short, for want of a
binding exactly where it reads an unbound variable, and in no other way. Where it succeeds it leaves
alone what it does not use. A call that may throw can throw exactly where it can complete, and only
its operands are gone then. -/
theorem execute_contract (i : Instruction) (s : State) (supply : Supply) :
    (i.execute s supply = .error (.stackUnderflow i.operands s.stack.length) ↔
        s.stack.length < i.operands) ∧
      (∀ var, i.execute s supply = .error (.unboundVariable var) ↔
        (∃ pos, i = .read var pos) ∧ s.value? var = none) ∧
      (∀ f, i.execute s supply = .error f →
        f = .stackUnderflow i.operands s.stack.length ∨ ∃ var, f = .unboundVariable var) ∧
      (∀ t left, i.execute s supply = .ok (t, left) → i.Spares supply left s t) ∧
      ∀ method, i.callee? = some method → method.mayThrow →
        ((∃ t?, i.abrupt? s = .ok t?) ↔ ∃ r, i.execute s supply = .ok r) ∧
          ∀ t?, i.abrupt? s = .ok t? →
            t? = some { s with stack := s.stack.drop i.operands } := by
  refine ⟨?_, fun var => ?_, fun f h => ?_, fun t left => execute_spares, ?_⟩
  · rw [execute_eq_error_iff, lacks_stackUnderflow_iff]
  · rw [execute_eq_error_iff, lacks_unboundVariable_iff]
  · cases execute_eq_error h with
    | operands => exact .inl rfl
    | binding => exact .inr ⟨_, rfl⟩
  · intro method hcallee hthrows
    constructor
    · rw [exists_execute_iff hcallee]
      simp only [abrupt?_eq_ok_iff hcallee hthrows, exists_and_left, exists_eq, and_true]
    · intro t? h
      exact ((abrupt?_eq_ok_iff hcallee hthrows).1 h).2

def wrap : Instruction := .newObject (Method.ofConstructor "A" ["B"]).throwing [{}] .unknown

/-- Two values on the stack; the upper one is bound to a variable and known not to be null. -/
def beforeWrap : State :=
  (((State.empty.put "b" (.simple 3)).constrain (.simple 3) .notNull).push (.simple 4)).push
    (.simple 3)

theorem execute_contract_wrap :
    (∃ t, wrap.execute beforeWrap ⟨5⟩ = .ok (t, ⟨6⟩) ∧ wrap.Spares ⟨5⟩ ⟨6⟩ beforeWrap t) ∧
      wrap.abrupt? beforeWrap = .ok (some { beforeWrap with stack := [.simple 4] }) ∧
      wrap.execute .empty ⟨5⟩ = .error (.stackUnderflow 1 0) := by
  obtain ⟨_, _, _, hspares, habrupt⟩ := execute_contract wrap beforeWrap ⟨5⟩
  refine ⟨⟨_, rfl, hspares _ _ rfl⟩, ?_, ?_⟩
  · obtain ⟨hiff, hthrown⟩ := habrupt _ rfl rfl
    obtain ⟨t?, ht⟩ := hiff.2 ⟨_, rfl⟩
    rw [ht, hthrown t? ht]
    rfl
  · exact (execute_contract wrap .empty ⟨5⟩).1.2 (by decide)

/-- A comparison by value that is declared to leave nothing on the stack. -/
def isVoidEquals (i : Instruction) : Bool := i.comparesByValue && i.results == 0

theorem pushed_eq (i : Instruction) : i.pushed = i.results + i.isVoidEquals.toNat := by
  unfold pushed isVoidEquals
  cases i.comparesByValue with
  | false => rfl
  | true =>
    rcases Nat.le_one_iff_eq_zero_or_eq_one.1 i.results_le_one with hresults | hresults
    · rw [hresults]
      rfl
    · rw [hresults]
      rfl

/-- An instruction puts as many values in the place of its operands as it declares, and one more
where it is a comparison by value that is declared to return nothing. -/
theorem execute_stack_effect (h : i.execute s supply = .ok (t, left)) :
    i.operands ≤ s.stack.length ∧
      ∃ vs, vs.length = i.results + i.isVoidEquals.toNat ∧
        t.stack = vs ++ s.stack.drop i.operands := by
  have hexecuted := execute_executed h
  constructor
  · exact hexecuted.operands_le
  · rw [← pushed_eq]
    exact hexecuted.stack

theorem execute_stack_effect_wrap :
    ∃ t left vs, wrap.execute beforeWrap ⟨5⟩ = .ok (t, left) ∧ vs.length = 1 ∧
      t.stack = vs ++ [.simple 4] := by
  have h : wrap.execute beforeWrap ⟨5⟩ = .ok (_, _) := rfl
  obtain ⟨_, vs, hlength, hstack⟩ := execute_stack_effect h
  exact ⟨_, _, vs, h, hlength, hstack⟩

def voidEquals : Instruction :=
  .invoke ⟨"A", "equals", ["java.lang.Object"], .void, false⟩ true [{}] .unknown

/-- The outcome of the comparison is left on the stack, though no result is declared. -/
theorem voidEquals_leaves_value :
    voidEquals.operands = 2 ∧ voidEquals.results = 0 ∧
      voidEquals.execute ((State.empty.push (.simple 3)).push (.simple 4)) ⟨5⟩ =
        .ok (State.empty.push (.relational .valueEqual (.simple 3) (.simple 4)), ⟨5⟩) :=
  ⟨rfl, rfl, rfl⟩

end Instruction

end Pathwise
