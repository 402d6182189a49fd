import Pathwise.Execution
import Pathwise.Proofs.Outcomes

namespace Pathwise

namespace State

variable {s t : State} {n : Nat} {v : Value} {f : Failure}

theorem unstack_eq_ok {vs : List Value} (h : s.unstack n = .ok (t, vs)) :
    n ≤ s.stack.length ∧ vs.length = n ∧ t = { s with stack := s.stack.drop n } := by
  unfold unstack at h
  split at h
  next hn =>
    cases h
    rw [List.length_reverse, List.length_take_of_le hn]
    exact ⟨hn, rfl, rfl⟩
  next => contradiction

theorem unstack_eq_error (h : s.unstack n = .error f) :
    s.stack.length < n ∧ f = .stackUnderflow n s.stack.length := by
  unfold unstack at h
  split at h
  next => contradiction
  next hlt =>
    cases h
    exact ⟨Nat.lt_of_not_le hlt, rfl⟩

theorem pop_eq_ok (h : s.pop = .ok (t, v)) :
    s.stack.head? = some v ∧ t = { s with stack := s.stack.drop 1 } := by
  unfold pop at h
  split at h
  next => contradiction
  next hstack =>
    cases h
    rw [hstack]
    exact ⟨rfl, rfl⟩

theorem pop_eq_error (h : s.pop = .error f) :
    s.stack.length < 1 ∧ f = .stackUnderflow 1 s.stack.length := by
  unfold pop at h
  split at h
  next hstack =>
    cases h
    rw [hstack]
    exact ⟨Nat.one_pos, rfl⟩
  next => contradiction

theorem one_le_of_head? (h : s.stack.head? = some v) : 1 ≤ s.stack.length := by
  cases hstack : s.stack with
  | nil =>
    rw [hstack] at h
    contradiction
  | cons => exact Nat.succ_le_succ (Nat.zero_le _)

end State

namespace Instruction

variable {i : Instruction} {s t : State} {f : Failure}

/-- The instruction lacks something that it needs, which is why it fails. -/
inductive Lacks (i : Instruction) (s : State) : Failure → Prop
  | operands : s.stack.length < i.operands →
      Lacks i s (.stackUnderflow i.operands s.stack.length)
  | binding {var pos} : i = .read var pos → s.value? var = none → Lacks i s (.unboundVariable var)

theorem Lacks.of_unstack (h : s.unstack i.operands = .error f) : i.Lacks s f := by
  obtain ⟨hlt, rfl⟩ := State.unstack_eq_error h
  exact .operands hlt

theorem Lacks.of_pop (hi : i.operands = 1) (h : s.pop = .error f) : i.Lacks s f := by
  obtain ⟨hlt, rfl⟩ := State.pop_eq_error h
  rw [← hi] at hlt ⊢
  exact .operands hlt

theorem Lacks.lt_operands {method : Method} (h : i.Lacks s f) (hcallee : i.callee? = some method) :
    s.stack.length < i.operands := by
  cases h with
  | operands hlt => exact hlt
  | binding hread => cases hread ▸ hcallee

theorem execute_eq_error {supply : Supply} (h : i.execute s supply = .error f) : i.Lacks s f := by
  cases i with
  | literal value pos => rcases value with _ | ⟨_ | _⟩ | _ | _ | _ <;> contradiction
  | read var pos =>
    simp only [execute] at h
    split at h
    next => contradiction
    next hnone =>
      cases h
      exact .binding rfl hnone
  | assign var pos | pop pos | memberSelect field type pos | unary op pos =>
    rcases bind_eq_error.1 h with h | ⟨_, _, h⟩
    · exact .of_pop rfl h
    · contradiction
  | newObject method arguments pos =>
    rcases bind_eq_error.1 h with h | ⟨_, _, h⟩
    · exact .of_unstack h
    · contradiction
  | invoke method receiver arguments pos =>
    rcases bind_eq_error.1 h with h | ⟨_, _, h⟩
    · exact .of_unstack h
    · dsimp only at h
      split at h
      · contradiction
      · split at h <;> contradiction
  | binary op pos =>
    rcases bind_eq_error.1 h with h | ⟨⟨_, vs⟩, _, h⟩
    · exact .of_unstack h
    · rcases vs with _ | ⟨l, _ | ⟨r, _ | _⟩⟩ <;> contradiction

theorem exists_execute (h : ∀ f, ¬ i.Lacks s f) (supply : Supply) :
    ∃ r, i.execute s supply = .ok r := by
  cases hexecute : i.execute s supply with
  | ok r => exact ⟨r, rfl⟩
  | error f => exact absurd (execute_eq_error hexecute) (h f)

theorem abrupt?_eq (i : Instruction) (s : State) :
    i.abrupt? s =
      if i.callee?.any (·.mayThrow) then
        if i.operands ≤ s.stack.length then .ok (some { s with stack := s.stack.drop i.operands })
        else .error (.stackUnderflow i.operands s.stack.length)
      else .ok none := by
  unfold abrupt?
  cases i.callee? with
  | none => rfl
  | some method =>
    cases hthrows : method.mayThrow with
    | false => simp only [hthrows, Option.any_some, Bool.false_eq_true, if_false]
    | true =>
      simp only [hthrows, Option.any_some, if_true, State.unstack]
      split <;> rfl

theorem abrupt?_eq_some (h : i.abrupt? s = .ok (some t)) :
    (∃ method, i.callee? = some method ∧ method.mayThrow) ∧ i.operands ≤ s.stack.length ∧
      t = { s with stack := s.stack.drop i.operands } := by
  rw [abrupt?_eq] at h
  split at h
  next hthrows =>
    split at h
    next hoperands =>
      cases h
      exact ⟨(Option.any_eq_true _ _).1 hthrows, hoperands, rfl⟩
    next => cases h
  next => cases h

theorem abrupt?_eq_error (h : i.abrupt? s = .error f) : i.Lacks s f := by
  rw [abrupt?_eq] at h
  split at h
  · split at h
    next => cases h
    next hlt =>
      cases h
      exact .operands (Nat.lt_of_not_le hlt)
  · cases h

end Instruction

end Pathwise
