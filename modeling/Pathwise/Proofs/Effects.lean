import Pathwise.Proofs.Constraints
import Pathwise.Proofs.Frame
import Pathwise.Proofs.Operands

namespace Pathwise

namespace State

variable {s t : State}

theorem relations_constrain (s : State) (v : Value) (c : Constraint) :
    (s.constrain v c).relations = s.relations := by
  unfold constrain
  cases h : s.constrain? v c with
  | none => rfl
  | some t => exact relations_of_constrain? h

theorem find?_constrain {v w : Value} (hw : ¬ v ≈ w) (s : State) (c : Constraint) :
    (s.constrain v c).constraints.find? w.toClass = s.constraints.find? w.toClass := by
  unfold constrain
  cases h : s.constrain? v c with
  | none => rfl
  | some t => exact find?_of_constrain? h hw

theorem constraints_constrain (h : t.constraints = s.constraints) (v : Value) (c : Constraint) :
    (t.constrain v c).constraints = (s.constrain v c).constraints := by
  simp only [constrain, constrain?, constraintsOf?, h]
  split
  · split
    · exact h
    · exact h
  · rfl

end State

namespace Instruction

def assigned? : Instruction → Option String
  | assign var _ => some var
  | _ => none

def comparesByValue : Instruction → Bool
  | invoke method receiver arguments _ =>
    method.isEquals && arguments.length + receiver.toNat == 2
  | _ => false

/-- How many values the instruction pushes. A comparison by value has its outcome pushed even where
the method is declared to return nothing. -/
def pushed (i : Instruction) : Nat := if i.comparesByValue then 1 else i.results

theorem results_le_one (i : Instruction) : i.results ≤ 1 := by
  unfold results
  split
  · exact Nat.zero_le 1
  · exact Nat.zero_le 1
  · split
    · exact Nat.zero_le 1
    · exact Nat.le_refl 1
  · exact Nat.le_refl 1

theorem results_le_pushed (i : Instruction) : i.results ≤ i.pushed := by
  unfold pushed
  split
  · exact i.results_le_one
  · exact Nat.le_refl _

def Creates (i : Instruction) : Prop :=
  (∃ text pos, i = .literal (.str text) pos) ∨
    ∃ method arguments pos, i = .newObject method arguments pos

theorem Creates.assigned?_eq_none {i : Instruction} (h : i.Creates) : i.assigned? = none := by
  rcases h with ⟨_, _, rfl⟩ | ⟨_, _, _, rfl⟩ <;> rfl

theorem Creates.pushed_eq_one {i : Instruction} (h : i.Creates) : i.pushed = 1 := by
  rcases h with ⟨_, _, rfl⟩ | ⟨_, _, _, rfl⟩ <;> rfl

end Instruction

/-- The second state is the first one after the instruction. -/
structure Executed (i : Instruction) (supply : Supply) (s t : State) : Prop where
  operands_le : i.operands ≤ s.stack.length
  stack : ∃ vs, vs.length = i.pushed ∧ t.stack = vs ++ s.stack.drop i.operands
  vars : i.assigned? = none → t.vars = s.vars
  assigned : ∀ {var}, i.assigned? = some var →
    ∃ v, s.stack.head? = some v ∧ t.vars = s.vars.insert (var, v)
  constraints : t.constraints = s.constraints ∨
    i.Creates ∧ t.constraints = (s.constrain supply.fresh.1 .notNull).constraints
  relations : t.relations = s.relations
  exit? : t.exit? = s.exit?
  visits : t.visits = s.visits

variable {i : Instruction} {s t : State} {supply left : Supply}

theorem Executed.value?_eq (h : Executed i supply s t) (var : String) :
    t.value? var = if i.assigned? = some var then s.stack.head? else s.value? var := by
  cases hassign : i.assigned? with
  | none =>
    rw [if_neg (Option.some_ne_none var).symm, State.value?, h.vars hassign]
    rfl
  | some name =>
    obtain ⟨v, hv, hvars⟩ := h.assigned hassign
    have hput : t.value? var = (s.put name v).value? var := by
      rw [State.value?, hvars]
      rfl
    rw [hput, State.value?_put, hv]
    simp only [Option.some.injEq, eq_comm]

theorem Executed.drop (hoperands : i.operands ≤ s.stack.length) (hpushed : i.pushed = 0)
    (hassign : i.assigned? = none) :
    Executed i supply s { s with stack := s.stack.drop i.operands } :=
  ⟨hoperands, ⟨[], hpushed.symm, rfl⟩, fun _ => rfl,
    fun h => absurd (hassign.symm.trans h) (Option.some_ne_none _).symm, .inl rfl, rfl, rfl, rfl⟩

theorem Executed.push {v : Value} (hoperands : i.operands ≤ s.stack.length)
    (hpushed : i.pushed = 1) (hassign : i.assigned? = none) :
    Executed i supply s (State.push { s with stack := s.stack.drop i.operands } v) :=
  ⟨hoperands, ⟨[v], hpushed.symm, rfl⟩, fun _ => rfl,
    fun h => absurd (hassign.symm.trans h) (Option.some_ne_none _).symm, .inl rfl, rfl, rfl, rfl⟩

theorem Executed.create (hoperands : i.operands ≤ s.stack.length) (hcreates : i.Creates) :
    Executed i supply s ((State.constrain { s with stack := s.stack.drop i.operands }
      supply.fresh.1 .notNull).push supply.fresh.1) := by
  have hframe := State.sameFrame_constrain { s with stack := s.stack.drop i.operands }
    supply.fresh.1 .notNull
  refine ⟨hoperands, ⟨[supply.fresh.1], hcreates.pushed_eq_one.symm, congrArg _ hframe.stack⟩,
    fun _ => hframe.vars, ?_, .inr ⟨hcreates, ?_⟩, State.relations_constrain _ _ _, hframe.exit?,
    hframe.visits⟩
  · intro var h
    cases hcreates.assigned?_eq_none.symm.trans h
  · exact State.constraints_constrain (s := s) (t := { s with stack := s.stack.drop _ }) rfl _ _

namespace Instruction

theorem execute_executed (h : i.execute s supply = .ok (t, left)) : Executed i supply s t := by
  cases i with
  | literal value pos =>
    rcases value with _ | ⟨_ | _⟩ | _ | _ | _ <;> cases h
    · exact .push (Nat.zero_le _) rfl rfl
    · exact .push (Nat.zero_le _) rfl rfl
    · exact .push (Nat.zero_le _) rfl rfl
    · exact .push (Nat.zero_le _) rfl rfl
    · exact .push (Nat.zero_le _) rfl rfl
    · exact .create (Nat.zero_le _) (.inl ⟨_, _, rfl⟩)
  | read var pos =>
    simp only [execute] at h
    split at h
    next =>
      cases h
      exact .push (Nat.zero_le _) rfl rfl
    next => contradiction
  | assign var pos =>
    obtain ⟨⟨u, v⟩, hpop, h⟩ := bind_eq_ok.1 h
    obtain ⟨hv, rfl⟩ := State.pop_eq_ok hpop
    cases h
    refine ⟨State.one_le_of_head? hv, ⟨[], rfl, rfl⟩, fun h => ?_, fun h => ?_,
      .inl rfl, rfl, rfl, rfl⟩
    · cases h
    · cases h
      exact ⟨v, hv, rfl⟩
  | pop pos =>
    obtain ⟨⟨u, v⟩, hpop, h⟩ := bind_eq_ok.1 h
    obtain ⟨hv, rfl⟩ := State.pop_eq_ok hpop
    cases h
    exact .drop (State.one_le_of_head? hv) rfl rfl
  | newObject method arguments pos =>
    obtain ⟨⟨u, vs⟩, hunstack, h⟩ := bind_eq_ok.1 h
    obtain ⟨hoperands, _, rfl⟩ := State.unstack_eq_ok hunstack
    cases h
    exact .create hoperands (.inr ⟨_, _, _, rfl⟩)
  | invoke method receiver arguments pos =>
    obtain ⟨⟨u, vs⟩, hunstack, h⟩ := bind_eq_ok.1 h
    obtain ⟨hoperands, hlength, rfl⟩ := State.unstack_eq_ok hunstack
    dsimp only at h
    split at h
    next l r hequals =>
      cases h
      refine .push hoperands (if_pos ?_) rfl
      rw [comparesByValue, hequals, Bool.true_and]
      exact beq_iff_eq.2 hlength.symm
    next vs _ _ hnot =>
      have hpushed : pushed (.invoke method receiver arguments pos) =
          results (.invoke method receiver arguments pos) := by
        refine if_neg fun hcompares => ?_
        obtain ⟨hequals, htwo⟩ := Bool.and_eq_true_iff.1 hcompares
        rcases vs with _ | ⟨l, _ | ⟨r, _ | _⟩⟩ <;> cases hlength.trans (beq_iff_eq.1 htwo)
        exact hnot l r hequals rfl
      split at h
      next hvoid =>
        cases h
        exact .drop hoperands (hpushed.trans (if_pos hvoid)) rfl
      next hvalue =>
        cases h
        exact .push hoperands (hpushed.trans (if_neg hvalue)) rfl
  | memberSelect field type pos =>
    obtain ⟨⟨u, v⟩, hpop, h⟩ := bind_eq_ok.1 h
    obtain ⟨hv, rfl⟩ := State.pop_eq_ok hpop
    cases h
    exact .push (State.one_le_of_head? hv) rfl rfl
  | binary op pos =>
    obtain ⟨⟨u, vs⟩, hunstack, h⟩ := bind_eq_ok.1 h
    obtain ⟨hoperands, htwo, rfl⟩ := State.unstack_eq_ok hunstack
    rcases vs with _ | ⟨l, _ | ⟨r, _ | _⟩⟩ <;> cases htwo
    cases h
    exact .push hoperands rfl rfl
  | unary op pos =>
    obtain ⟨⟨u, v⟩, hpop, h⟩ := bind_eq_ok.1 h
    obtain ⟨hv, rfl⟩ := State.pop_eq_ok hpop
    cases h
    exact .push (State.one_le_of_head? hv) rfl rfl

end Instruction

end Pathwise
