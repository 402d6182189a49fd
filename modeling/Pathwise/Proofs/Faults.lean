import Mathlib.Data.List.Nodup
import Pathwise.Proofs.Creation

namespace Pathwise

/-- The budgets of an assumption: the relations deduced from one, and how deeply they are nested. -/
inductive Failure.Overrun : Failure → Prop
  | relations (used iterations : Nat) : Overrun (.relationsExceeded used iterations)
  | nesting : Overrun .nestingExceeded

theorem Failure.Overrun.isBudget {f : Failure} (h : f.Overrun) : f.isBudget := by
  cases h <;> rfl

namespace Outcomes

def Budgeted (f : State → Outcomes) : Prop := ∀ ⦃s e⦄, f s = .error e → e.Overrun

variable {f g : State → Outcomes}

theorem Budgeted.each (hf : Budgeted f) {states : List State} {e : Failure}
    (h : Outcomes.each f states = .error e) : e.Overrun := by
  obtain ⟨s, _, hs⟩ := exists_of_each_error h
  exact hf hs

theorem Budgeted.both (hf : Budgeted f) (hg : Budgeted g) : Budgeted (Outcomes.both f g) := by
  intro s e h
  rcases bind_eq_error.1 h with h | ⟨a, _, h⟩
  · exact hf h
  · exact hg.each h

theorem Budgeted.either (hf : Budgeted f) (hg : Budgeted g) : Budgeted (Outcomes.either f g) := by
  intro s e h
  rcases bind_eq_error.1 h with h | ⟨a, _, h⟩
  · exact hf h
  · rcases bind_eq_error.1 h with h | ⟨b, _, h⟩
    · exact hg h
    · contradiction

theorem Budgeted.foldlM {α : Type} {F : α → State → Outcomes} (hF : ∀ a, Budgeted (F a))
    {as : List α} {states : List State} {e : Failure}
    (h : as.foldlM (fun states a => Outcomes.each (F a) states) states = .error e) :
    e.Overrun := by
  induction as generalizing states with
  | nil => contradiction
  | cons a as ih =>
    rcases bind_eq_error.1 h with h | ⟨mid, _, h⟩
    · exact (hF a).each h
    · exact ih h

end Outcomes

open Outcomes

theorem LogicalOp.split_budgeted {f g : Bool → State → Outcomes} (hf : ∀ b, Budgeted (f b))
    (hg : ∀ b, Budgeted (g b)) (op : LogicalOp) (b : Bool) : Budgeted (op.split b f g) :=
  op.split_closed Budgeted.both Budgeted.either hf hg b

namespace Value

theorem assumeTruth_budgeted {relate : Relation → Bool → State → Outcomes}
    (hrelate : ∀ r b, Budgeted (relate r b)) (v : Value) (b : Bool) :
    Budgeted (v.assumeTruth relate b) := by
  induction v generalizing b with
  | simple id | boolean id =>
    intro s e h
    contradiction
  | not id w ih =>
    intro s e h
    simp only [assumeTruth] at h
    split at h
    · exact ih _ h
    · contradiction
  | binary id op l r ihl ihr =>
    intro s e h
    simp only [assumeTruth] at h
    split at h
    · exact op.split_budgeted ihl ihr b h
    · contradiction
  | relational k l r => exact hrelate ⟨k, l, r⟩ b

theorem assumeWith_budgeted {relate : Relation → Bool → State → Outcomes}
    (hrelate : ∀ r b, Budgeted (relate r b)) (v : Value) (c : Constraint) :
    Budgeted (v.assumeWith relate c) := by
  intro s e h
  unfold assumeWith at h
  split at h
  next b _ => exact assumeTruth_budgeted hrelate v b h
  next => contradiction

end Value

namespace Relation

variable {assume : Value → Constraint → State → Outcomes}
  (hassume : ∀ v c, Budgeted (assume v c))

include hassume

theorem impose_budgeted (r : Relation) (target : Value) (held : ConstraintSet) :
    Budgeted (r.impose assume target held) := by
  intro s e h
  exact Budgeted.foldlM (hassume target) h

theorem transfer_budgeted (r : Relation) (a b : Value) : Budgeted (r.transfer assume a b) := by
  intro s e h
  unfold transfer at h
  split at h
  · exact impose_budgeted hassume r b _ h
  · exact impose_budgeted hassume r a _ h
  · contradiction

theorem orNull_budgeted {v : Value} {states : List State} {e : Failure}
    (h : orNull assume v states = .error e) : e.Overrun := by
  refine Budgeted.each (fun s e h => ?_) h
  rcases bind_eq_error.1 h with h | ⟨nulls, _, h⟩
  · exact hassume v .null h
  · contradiction

theorem record_budgeted (r : Relation) : Budgeted (r.record assume) := by
  intro s e h
  unfold record at h
  rcases bind_eq_error.1 h with h | ⟨mid, _, h⟩
  · exact (transfer_budgeted hassume r _ _).both (transfer_budgeted hassume r _ _) h
  · split at h
    · exact orNull_budgeted hassume h
    · contradiction

theorem assumeHolds_budgeted (budget : Budget) (r : Relation) :
    Budgeted (r.assumeHolds assume budget) := by
  intro s e h
  unfold assumeHolds at h
  split at h
  · contradiction
  rcases bind_eq_error.1 h with h | ⟨found, _, h⟩
  · obtain ⟨used, iterations, rfl⟩ := closure_error h
    exact .relations used iterations
  · dsimp only at h
    split at h
    · contradiction
    · exact Budgeted.foldlM (record_budgeted hassume) h

end Relation

theorem Value.assumeAt_budgeted (budget : Budget) (levels : Nat) (v : Value) (c : Constraint) :
    Budgeted (v.assumeAt budget levels c) := by
  induction levels generalizing v c with
  | zero =>
    apply assumeWith_budgeted
    intro r b s e h
    cases h
    exact .nesting
  | succ levels ih =>
    apply assumeWith_budgeted
    intro r b
    exact Relation.assumeHolds_budgeted ih budget _

/-- An assumption fails only by running out of a budget. -/
theorem Value.assume_budgeted (v : Value) (c : Constraint) (budget : Budget) :
    Budgeted (v.assume c budget) := by
  intro s e h
  exact assumeAt_budgeted budget _ v c h

/-- Why an element that is executed in a state fails. -/
inductive Fault (e : Element) (s : State) : Failure → Prop
  | underflow : s.stack.length < e.operands →
      Fault e s (.stackUnderflow e.operands s.stack.length)
  | unbound {var pos} : e = .instruction (.read var pos) → s.value? var = none →
      Fault e s (.unboundVariable var)
  | budget {f} : f.Overrun → Fault e s f

theorem Fault.of_pop {e : Element} {s : State} {f : Failure} (he : e.operands = 1)
    (h : s.pop = .error f) : Fault e s f := by
  obtain ⟨hlt, rfl⟩ := State.pop_eq_error h
  rw [← he] at hlt ⊢
  exact .underflow hlt

theorem Instruction.Lacks.fault {i : Instruction} {s : State} {f : Failure} (h : i.Lacks s f) :
    Fault (.instruction i) s f := by
  cases h with
  | operands hlt => exact .underflow hlt
  | binding hread hnone => exact .unbound (congrArg _ hread) hnone

namespace ControlFlow

variable {c : ControlFlow} {p : Point}

theorem block_of_mem_points (h : p ∈ c.points) :
    ∃ b, c.block p.block = .ok b ∧ p.index ≤ b.instructions.length := by
  obtain ⟨b, hb, hp⟩ := List.mem_flatMap.1 h
  obtain ⟨index, hindex, rfl⟩ := List.mem_map.1 hp
  obtain ⟨b', hb'⟩ := exists_block (List.mem_map_of_mem hb)
  -- ids are distinct, so the block that is found is the one that the point was taken from
  obtain ⟨hmem, hid⟩ := mem_of_block? hb'
  cases List.inj_on_of_nodup_map c.nodup hmem hb hid
  refine ⟨b, ?_, Nat.le_of_lt_succ (List.mem_range.1 hindex)⟩
  simp only [block, hb']

theorem element_of_mem_points (h : p ∈ c.points) : ∃ e, c.element p = .ok e := by
  obtain ⟨b, hb, hp⟩ := block_of_mem_points h
  simp only [element, hb, bind, Except.bind]
  rcases Nat.lt_or_eq_of_le hp with hlt | heq
  · exact ⟨.instruction b.instructions[p.index], by rw [List.getElem?_eq_getElem hlt]⟩
  · exact ⟨.terminator b.terminator, by simp [heq]⟩

theorem handlers_of_mem_points (h : p ∈ c.points) :
    ∃ handlers, c.handlers p.block = .ok handlers := by
  obtain ⟨b, hb, _⟩ := block_of_mem_points h
  exact ⟨b.handlers, by rw [handlers, hb]; rfl⟩

end ControlFlow

namespace Exploration

variable {detectors : List Detector} {o : Options} {x : Exploration} {id : NodeId} {node : Node}
  {s : State} {f : Failure}

section

variable (hp : node.point ∈ x.graph.flow.points)

include hp

theorem instruct_fault {y : Exploration} {i : Instruction}
    (h : x.instruct detectors o id node s i = (y, some f)) : Fault (.instruction i) s f := by
  rcases (instruct_eq_some (ControlFlow.handlers_of_mem_points hp) h).1 with h | h
  · exact (Instruction.abrupt?_eq_error h).fault
  · exact (Instruction.execute_eq_error h).fault

omit hp in
theorem branch_fault {y : Exploration} {trueTarget falseTarget : BlockId} {pos : Position}
    (h : x.branch o id node s trueTarget falseTarget = (y, some f)) :
    Fault (.terminator (.branch trueTarget falseTarget pos)) s f := by
  rcases (branch_eq_some h).1 with hpop | ⟨t, condition, b, _, hassume⟩
  · exact .of_pop rfl hpop
  · exact .budget (condition.assume_budgeted _ _ hassume)

theorem terminate_fault {y : Exploration} {t : Terminator}
    (h : x.terminate detectors o id node s t = (y, some f)) : Fault (.terminator t) s f := by
  cases t with
  | goto target => cases h
  | branch trueTarget falseTarget pos => exact branch_fault h
  | ret value pos =>
    cases value with
    | false => cases h
    | true =>
      rcases attempt_eq_some.1 h with ⟨hpop, _⟩ | ⟨_, _, h⟩
      · exact .of_pop rfl hpop
      · cases h
  | throw pos =>
    rcases attempt_eq_some.1 h with ⟨hpop, _⟩ | ⟨_, _, h⟩
    · exact .of_pop rfl hpop
    · exact absurd h (not_raise_eq_some (ControlFlow.handlers_of_mem_points hp))
  | exit => cases h

theorem perform_fault {y : Exploration} {element : Element}
    (h : x.perform detectors o id node s element = (y, some f)) : Fault element s f := by
  cases element with
  | instruction i => exact instruct_fault hp h
  | terminator t => exact terminate_fault hp h

/-- A step at a point of the routine fails only as its element can, in the state that the detectors
made of that of the node. -/
theorem step_fault {y : Exploration} (h : x.step detectors o id node = (y, some f)) :
    ∃ element s, x.graph.flow.element node.point = .ok element ∧
      Adjusted detectors node.state s ∧ Fault element s f := by
  cases step_processed h with
  | missing hmissing =>
    obtain ⟨element, helement⟩ := ControlFlow.element_of_mem_points hp
    cases helement.symm.trans hmissing
  | @failed element t _ _ helement hbefore hperform =>
    have hadjusted := (askBefore_adjusted detectors o x id node element).1
    rw [hbefore] at hadjusted
    refine ⟨element, t, helement, hadjusted, perform_fault ?_ hperform⟩
    exact hp

end

/-- A failure is the fault of the element at some node. -/
theorem Reached.fault {flow : ControlFlow} {done : List NodeId}
    (h : Reached detectors o flow done x (some f)) :
    ∃ done' y id n e s, Reached detectors o flow done' y none ∧ y.graph.node? id = some n ∧
      flow.element n.point = .ok e ∧ Adjusted detectors n.state s ∧ Fault e s f := by
  cases h with
  | step hy hnext hnode hstep =>
    have hp := hy.wellFormed.graph.mem_points hnode
    obtain ⟨e, s, he, hadjusted, hfault⟩ := step_fault (by exact hp) hstep
    exact ⟨_, _, _, _, e, s, hy, hnode, hy.flow_eq ▸ he, hadjusted, hfault⟩

end Exploration

end Pathwise
