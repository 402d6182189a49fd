import Pathwise.Proofs.Findings
import Pathwise.Proofs.Operands

namespace Pathwise

theorem ControlFlow.handlers_of_element {c : ControlFlow} {p : Point} {e : Element}
    (h : c.element p = .ok e) : ∃ handlers, c.handlers p.block = .ok handlers := by
  obtain ⟨b, hb, _⟩ := bind_eq_ok.1 h
  exact ⟨b.handlers, by rw [handlers, hb]; rfl⟩

theorem Instruction.exists_execute_of_abrupt? {i : Instruction} {s t : State}
    (h : i.abrupt? s = .ok (some t)) (supply : Supply) : ∃ r, i.execute s supply = .ok r := by
  obtain ⟨⟨method, hmethod, _⟩, hoperands, _⟩ := abrupt?_eq_some h
  refine exists_execute (fun f hlacks => ?_) supply
  exact absurd (hlacks.lt_operands hmethod) (Nat.not_lt_of_le hoperands)

namespace Exploration

/-- The ways in which a node is processed: it has no element, the detectors stop the path before it, or
the element is executed in the state that they left. -/
inductive Processed (detectors : List Detector) (o : Options) (x : Exploration) (id : NodeId)
    (node : Node) : Exploration → Option Failure → Prop
  | missing {f} : x.graph.flow.element node.point = .error f →
      Processed detectors o x id node x (some f)
  | stopped {element s j} : x.graph.flow.element node.point = .ok element →
      x.askBefore detectors o id node element = (s, true, j) →
      Processed detectors o x id node
        { x with
          statistics.sinks := x.statistics.sinks + 1
          journal := j.write .debug "Path ends in a sink" [("point", node.point.text)] } none
  | failed {element s j f} : x.graph.flow.element node.point = .ok element →
      x.askBefore detectors o id node element = (s, false, j) →
      perform detectors o { x with journal := j } id node s element =
        ({ x with journal := j }, some f) →
      Processed detectors o x id node { x with journal := j } (some f)
  | performed {element s j y} : x.graph.flow.element node.point = .ok element →
      x.askBefore detectors o id node element = (s, false, j) →
      perform detectors o { x with journal := j } id node s element = (y, none) →
      Processed detectors o x id node y none

variable {detectors : List Detector} {o : Options} {x y : Exploration} {id : NodeId} {node : Node}
  {s : State} {i : Instruction} {f : Failure}

theorem attempt_eq_none {α : Type} {call : Except Failure α}
    {next : α → Exploration × Option Failure} :
    x.attempt call next = (y, none) ↔ ∃ a, call = .ok a ∧ next a = (y, none) := by
  cases call <;> simp [attempt]

theorem attempt_eq_some {α : Type} {call : Except Failure α}
    {next : α → Exploration × Option Failure} :
    x.attempt call next = (y, some f) ↔
      call = .error f ∧ y = x ∨ ∃ a, call = .ok a ∧ next a = (y, some f) := by
  cases call <;> simp [attempt, eq_comm, and_comm]

theorem raise_eq_some {exception : Value}
    (h : x.raise detectors o id node s exception = (y, some f)) :
    x.graph.flow.handlers node.point.block = .error f ∧ y = x := by
  rcases attempt_eq_some.1 h with h | ⟨handlers, _, h⟩
  · exact h
  · cases handlers <;> cases h

theorem not_raise_eq_some
    (hblock : ∃ handlers, x.graph.flow.handlers node.point.block = .ok handlers)
    {exception : Value} : x.raise detectors o id node s exception ≠ (y, some f) := by
  intro h
  obtain ⟨handlers, hhandlers⟩ := hblock
  cases hhandlers.symm.trans (raise_eq_some h).1

theorem throwing_eq_some (hblock : ∃ handlers, x.graph.flow.handlers node.point.block = .ok handlers)
    (h : x.throwing detectors o id node s i = (y, some f)) : i.abrupt? s = .error f ∧ y = x := by
  unfold throwing at h
  split at h
  · rcases attempt_eq_some.1 h with h | ⟨thrown?, _, h⟩
    · exact h
    · cases thrown? with
      | some thrown => exact (not_raise_eq_some (by exact hblock) h).elim
      | none => cases h
  · cases h

theorem throwing_eq_none (h : x.throwing detectors o id node s i = (y, none)) :
    y = x ∨ ∃ t, i.abrupt? s = .ok (some t) := by
  unfold throwing at h
  split at h
  · obtain ⟨thrown?, habrupt, h⟩ := attempt_eq_none.1 h
    cases thrown? with
    | some thrown => exact .inr ⟨thrown, habrupt⟩
    | none =>
      cases h
      exact .inl rfl
  · cases h
    exact .inl rfl

theorem completing_eq_some (h : x.completing detectors o id node s i = (y, some f)) :
    i.execute s x.supply = .error f ∧ y = x := by
  rcases attempt_eq_some.1 h with h | ⟨⟨t, supply⟩, _, h⟩
  · exact h
  · dsimp only at h
    split at h <;> cases h

theorem instruct_eq_none (h : x.instruct detectors o id node s i = (y, none)) :
    ∃ mid, x.throwing detectors o id node s i = (mid, none) ∧
      mid.completing detectors o id node s i = (y, none) := by
  unfold instruct at h
  split at h
  next mid hmid => exact ⟨mid, hmid, h⟩
  next => cases h

theorem instruct_eq_some (hblock : ∃ handlers, x.graph.flow.handlers node.point.block = .ok handlers)
    (h : x.instruct detectors o id node s i = (y, some f)) :
    (i.abrupt? s = .error f ∨ i.execute s x.supply = .error f) ∧ y = x := by
  unfold instruct at h
  split at h
  next mid hmid =>
    obtain ⟨hexecute, rfl⟩ := completing_eq_some h
    rcases throwing_eq_none hmid with rfl | ⟨t, habrupt⟩
    · exact ⟨.inr hexecute, rfl⟩
    · -- the operands that the throw took are there for the completion too
      obtain ⟨r, hr⟩ := Instruction.exists_execute_of_abrupt? habrupt y.supply
      cases hexecute.symm.trans hr
  next hthrowing =>
    cases h
    obtain ⟨habrupt, rfl⟩ := throwing_eq_some hblock hthrowing
    exact ⟨.inl habrupt, rfl⟩

theorem branch_eq_some {trueTarget falseTarget : BlockId}
    (h : x.branch o id node s trueTarget falseTarget = (y, some f)) :
    (s.pop = .error f ∨ ∃ t condition b, s.pop = .ok (t, condition) ∧
      condition.assume (.truth b) o.budget t = .error f) ∧ y = x := by
  rcases attempt_eq_some.1 h with ⟨hpop, rfl⟩ | ⟨⟨t, condition⟩, hpop, h⟩
  · exact ⟨.inl hpop, rfl⟩
  rcases attempt_eq_some.1 h with ⟨hfalse, rfl⟩ | ⟨falseStates, _, h⟩
  · exact ⟨.inr ⟨t, condition, false, hpop, hfalse⟩, rfl⟩
  rcases attempt_eq_some.1 h with ⟨htrue, rfl⟩ | ⟨trueStates, _, h⟩
  · exact ⟨.inr ⟨t, condition, true, hpop, htrue⟩, rfl⟩
  · cases h

theorem terminate_eq_some {t : Terminator}
    (h : x.terminate detectors o id node s t = (y, some f)) : y = x := by
  cases t with
  | goto target => cases h
  | branch trueTarget falseTarget pos => exact (branch_eq_some h).2
  | ret value pos =>
    cases value with
    | false => cases h
    | true =>
      rcases attempt_eq_some.1 h with ⟨_, rfl⟩ | ⟨_, _, h⟩
      · rfl
      · cases h
  | throw pos =>
    rcases attempt_eq_some.1 h with ⟨_, rfl⟩ | ⟨_, _, h⟩
    · rfl
    · exact (raise_eq_some h).2
  | exit => cases h

/-- An element that stands in a block fails before it does anything. The path on which a call throws
is followed before the one on which it completes, but both take the same operands, and a call fails
only for want of these. -/
theorem perform_eq_some {element : Element} (helement : x.graph.flow.element node.point = .ok element)
    (h : x.perform detectors o id node s element = (y, some f)) : y = x := by
  cases element with
  | instruction i => exact (instruct_eq_some (ControlFlow.handlers_of_element helement) h).2
  | terminator t => exact terminate_eq_some h

theorem step_processed {failure? : Option Failure}
    (h : x.step detectors o id node = (y, failure?)) :
    Processed detectors o x id node y failure? := by
  unfold step at h
  split at h
  next helement =>
    cases h
    exact .missing helement
  next element helement =>
    cases hbefore : x.askBefore detectors o id node element with
    | mk s rest =>
      obtain ⟨sink, j⟩ := rest
      simp only [hbefore] at h
      cases sink with
      | true =>
        cases h
        exact .stopped helement hbefore
      | false =>
        simp only [Bool.false_eq_true, if_false] at h
        cases failure? with
        | none => exact .performed helement hbefore h
        | some f =>
          -- the journal is no part of what decides where the element fails
          have hflow : (x.graph.flow).element node.point = .ok element := helement
          cases perform_eq_some (x := { x with journal := j }) hflow h
          exact .failed helement hbefore h

/-- A step that fails leaves nodes and edges, the worklist, the terminal states, the ids and the
counters as they were. It may have asked the detectors about the element before it, and taken down what
they had to say. -/
theorem failed_step_untouched (h : x.step detectors o id node = (y, some f)) :
    y.graph = x.graph ∧ y.pending = x.pending ∧ y.ended = x.ended ∧ y.supply = x.supply ∧
      y.statistics = x.statistics ∧ Finding.Grown x.journal.findings y.journal.findings ∧
      (y.journal = x.journal ∨ ∃ element, x.graph.flow.element node.point = .ok element ∧
        y.journal = (x.askBefore detectors o id node element).2.2) := by
  cases step_processed h with
  | missing => exact ⟨rfl, rfl, rfl, rfl, rfl, .refl _, .inl rfl⟩
  | @failed element s j _ helement hbefore _ =>
    have hjournal : (x.askBefore detectors o id node element).2.2 = j := by rw [hbefore]
    have hgrown := Journal.extends_consult o .before
      (fun d s => d.before (x.view o id node s) element) detectors node.state x.journal
    refine ⟨rfl, rfl, rfl, rfl, rfl, ?_, .inr ⟨element, helement, hjournal.symm⟩⟩
    rw [← hjournal]
    exact hgrown.findings

end Exploration

def Detector.watcher : Detector where
  name := "watcher"
  before w e := { result := .ok w.state, issues := [⟨e.pos, "executed", []⟩] }

/-- A call that may throw to a handler, and finds no receiver on the stack. -/
def ControlFlow.starved : ControlFlow where
  routine := {
    name := "starved"
    entry := 0
    blocks := [
      { id := 0
        instructions := [.invoke ⟨"Lock", "await", [], .void, true⟩ true [] .unknown]
        terminator := .exit
        handlers := [1] },
      { id := 1, instructions := [.pop .unknown], terminator := .exit }] }
  nodup := by decide
  entry_mem := by decide
  targets_mem _ hb _ hid := Routine.missingTarget?_eq_none (by decide) hb hid

open Exploration in
theorem failed_step_untouched_starved :
    ∃ node y, (start {} .starved).graph.node? 0 = some node ∧
      (start {} .starved).step [.watcher] {} 0 node = (y, some (.stackUnderflow 1 0)) ∧
      y.graph = (start {} .starved).graph ∧ y.pending = (start {} .starved).pending ∧
      y.ended = (start {} .starved).ended ∧ y.supply = (start {} .starved).supply ∧
      y.statistics = (start {} .starved).statistics ∧
      (start {} .starved).journal.findings.length = 0 ∧ y.journal.findings.length = 1 := by
  have hstep : ((start {} .starved).graph.node? 0).any fun node =>
      ((start {} .starved).step [.watcher] {} 0 node).2 = some (.stackUnderflow 1 0) ∧
        ((start {} .starved).step [.watcher] {} 0 node).1.journal.findings.length = 1 := by
    decide +kernel
  obtain ⟨node, hnode, hstep⟩ := (Option.any_eq_true _ _).1 hstep
  obtain ⟨hfailure, hfindings⟩ := of_decide_eq_true hstep
  obtain ⟨hgraph, hpending, hended, hsupply, hstatistics, _⟩ :=
    failed_step_untouched (Prod.ext rfl hfailure)
  exact ⟨node, _, hnode, Prod.ext rfl hfailure, hgraph, hpending, hended, hsupply, hstatistics, rfl,
    hfindings⟩

end Pathwise
