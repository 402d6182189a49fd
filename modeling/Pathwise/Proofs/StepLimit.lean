import Pathwise.Proofs.Faults
import Pathwise.Proofs.Journal

namespace Pathwise

namespace Flow.Search

variable {g : Graph} {q : Query} {o o' : Options}

theorem followAll_congr (hflows : o'.maxFlows = o.maxFlows) (hsteps : o'.maxFlowSteps = o.maxFlowSteps)
    (c : Chain) (child : Node) (edges : List Edge) (s : Search) :
    followAll g q o' c child edges s = followAll g q o c child edges s := by
  induction edges generalizing s with
  | nil => rfl
  | cons e edges ih => rw [followAll, followAll, hflows, hsteps, ih]

theorem run_congr (hflows : o'.maxFlows = o.maxFlows) (hsteps : o'.maxFlowSteps = o.maxFlowSteps)
    (exceptions : Bool) (s : Search) : run g q o' exceptions s = run g q o exceptions s := by
  fun_induction run g q o exceptions s with
  | case1 => rw [run]
  | case2 c rest flows steps hfull => rw [run, hflows, if_pos hfull]
  | case3 c rest flows steps hfull hnode ih =>
    rw [run, hflows, if_neg hfull, hnode]
    exact ih
  | case4 c rest flows steps hfull child hnode hentry ih =>
    rw [run, hflows, if_neg hfull, hnode]
    simp only [hentry, if_true]
    exact ih
  | case5 c rest flows steps hfull child hnode hinner edges next hmore ih =>
    rw [run, hflows, if_neg hfull, hnode]
    simp only [hinner, followAll_congr hflows hsteps]
    rw [if_pos hmore]
    exact ih
  | case6 c rest flows steps hfull child hnode hinner edges next hdone =>
    rw [run, hflows, if_neg hfull, hnode]
    simp only [hinner, followAll_congr hflows hsteps]
    rw [if_neg hdone]
    rfl

end Flow.Search

theorem Graph.flows_limit (g : Graph) (start : NodeId) (q : Flow.Query) (o : Options) (n : Nat)
    (exceptions : Bool) :
    g.flows start q { o with maxSteps := n } exceptions = g.flows start q o exceptions := by
  apply Flow.Search.run_congr <;> rfl

theorem Journal.consult_limit (o : Options) (n : Nat) (hook : Hook)
    (react : Detector → State → Reaction) (detectors : List Detector) (s : State) (j : Journal) :
    consult { o with maxSteps := n } hook react detectors s j =
      consult o hook react detectors s j := by
  induction detectors generalizing s j with
  | nil => rfl
  | cons d ds ih =>
    rw [consult_cons, consult_cons, ih]
    rfl

namespace Exploration

variable {detectors : List Detector} {o : Options} {x y : Exploration} {flow : ControlFlow}
  {done : List NodeId} {n m : Nat}

section

variable (o n) (x : Exploration) (id : NodeId) (node : Node) (s : State)

@[simp] theorem enqueue_limit (p : Point) (e : Edge) :
    x.enqueue { o with maxSteps := n } p s e = x.enqueue o p s e := rfl

@[simp] theorem view_limit :
    x.view { o with maxSteps := n } id node s = x.view o id node s := by
  simp only [view, Graph.flows_limit]

variable (detectors)

theorem askBefore_limit (element : Element) :
    x.askBefore detectors { o with maxSteps := n } id node element =
      x.askBefore detectors o id node element := by
  simp only [askBefore, view_limit, Journal.consult_limit]

theorem askAfter_limit (element : Element) :
    x.askAfter detectors { o with maxSteps := n } id node s element =
      x.askAfter detectors o id node s element := by
  simp only [askAfter, view_limit, Journal.consult_limit]

theorem endPath_limit :
    x.endPath detectors { o with maxSteps := n } id node s = x.endPath detectors o id node s := by
  unfold endPath
  simp only [view_limit]
  rfl

theorem raise_limit (exception : Value) :
    x.raise detectors { o with maxSteps := n } id node s exception =
      x.raise detectors o id node s exception := by
  simp only [raise, endPath_limit, enqueue_limit]

theorem instruct_limit (i : Instruction) :
    x.instruct detectors { o with maxSteps := n } id node s i =
      x.instruct detectors o id node s i := by
  simp only [instruct, throwing, completing, raise_limit, askAfter_limit, enqueue_limit]

theorem terminate_limit (t : Terminator) :
    x.terminate detectors { o with maxSteps := n } id node s t =
      x.terminate detectors o id node s t := by
  simp only [terminate, branch, raise_limit, endPath_limit, enqueue_limit]

/-- A step does not depend on how many of them are allowed. -/
theorem step_limit :
    x.step detectors { o with maxSteps := n } id node = x.step detectors o id node := by
  unfold step perform
  simp only [askBefore_limit, instruct_limit, terminate_limit]

end

theorem run_zero (detectors : List Detector) (o : Options) (x : Exploration) :
    (x.run detectors o 0).1.graph = x.graph ∧
      (x.run detectors o 0).1.journal.findings = x.journal.findings := by
  rw [run]
  split <;> exact ⟨rfl, rfl⟩

theorem Reached.of_limit {failure? : Option Failure}
    (h : Reached detectors { o with maxSteps := n } flow done x failure?) (m : Nat) :
    Reached detectors { o with maxSteps := m } flow done x failure? := by
  induction h with
  | start => exact .start
  | step _ hnext hnode hstep ih =>
    rw [step_limit] at hstep
    exact ih.step hnext hnode (by rw [step_limit]; exact hstep)

theorem Ran.run_eq {left : Nat} {status : Status}
    (h : Ran detectors { o with maxSteps := n } left x y status)
    (hstatus : status ≠ .incomplete (.stepsExceeded n)) (m k : Nat) :
    x.run detectors { o with maxSteps := m } (left + k) = (y, status) := by
  induction h with
  | complete hnext => exact run_of_none hnext _
  | exhausted => contradiction
  | missing hnext hnode _ ih =>
    rw [Nat.succ_add, run_of_missing hnext hnode]
    exact ih hstatus
  | step hnext hnode hstep _ ih =>
    rw [step_limit] at hstep
    rw [Nat.succ_add, run_of_step hnext hnode (by rw [step_limit]; exact hstep)]
    exact ih hstatus
  | failed hnext hnode hstep =>
    rw [step_limit] at hstep
    rw [Nat.succ_add, run_of_failure hnext hnode (by rw [step_limit]; exact hstep)]

theorem Ran.steps_le {left : Nat} {status : Status} (h : Ran detectors o left x y status)
    (hx : Reached detectors o flow done x none) : y.statistics.steps ≤ done.length + left := by
  induction h generalizing done with
  | complete => exact hx.wellFormed.steps ▸ Nat.le_add_right _ _
  | exhausted => exact Nat.le_of_eq hx.wellFormed.steps
  | missing hnext hnode =>
    obtain ⟨node, hnode'⟩ := hx.wellFormed.node_of_next? hnext
    cases hnode.symm.trans hnode'
  | step hnext hnode hstep _ ih =>
    have hle := ih (hx.step hnext hnode hstep)
    rw [List.length_append, List.length_singleton] at hle
    omega
  | failed hnext hnode hstep =>
    have hle := Nat.le_of_eq (hx.step hnext hnode hstep).wellFormed.steps
    rw [List.length_append, List.length_singleton] at hle
    exact Nat.le_trans hle (Nat.add_le_add_left (Nat.le_add_left 1 _) _)

theorem Reached.ne_stepsExceeded {f : Failure} (h : Reached detectors o flow done x (some f))
    (n : Nat) : f ≠ .stepsExceeded n := by
  rintro rfl
  obtain ⟨_, _, _, _, _, _, _, _, _, _, hfault⟩ := h.fault
  cases hfault with
  | budget hover => cases hover

theorem Ends.of_stepsExceeded {failure? : Option Failure}
    (hx : Reached detectors o flow done x failure?) {limit : Nat}
    (h : x.Ends o limit failure? (.incomplete (.stepsExceeded n))) :
    failure? = none ∧ x.pending.toList ≠ [] ∧ done.length = limit := by
  generalize hstatus : Status.incomplete (.stepsExceeded n) = status at h
  cases h with
  | complete => contradiction
  | exhausted hpending hsteps => exact ⟨rfl, hpending, hx.wellFormed.steps ▸ hsteps⟩
  | failed f =>
    unfold Status.ofFailure at hstatus
    split at hstatus
    · cases hstatus
      exact absurd rfl (hx.ne_stepsExceeded n)
    · contradiction

end Exploration

open Exploration

variable {detectors : List Detector} {o : Options} {flow : ControlFlow} {n m : Nat}

theorem status_eq_stepsExceeded_iff :
    (explore detectors { o with maxSteps := n } flow).status = .incomplete (.stepsExceeded n) ↔
      ∃ done x, Reached detectors { o with maxSteps := n } flow done x none ∧ done.length = n ∧
        x.pending.toList ≠ [] := by
  constructor
  · intro hstatus
    obtain ⟨done, x, failure?, hx, _, _, hends⟩ :=
      explore_reached detectors { o with maxSteps := n } flow
    rw [hstatus] at hends
    obtain ⟨rfl, hpending, hlength⟩ := hends.of_stepsExceeded hx
    exact ⟨done, x, hx, hlength, hpending⟩
  · rintro ⟨done, x, hx, rfl, hpending⟩
    have hrun := hx.run_eq rfl (Nat.le_refl _)
    rw [Nat.sub_self] at hrun
    show ((start _ flow).run detectors _ done.length).2 = _
    rw [hrun, run]
    split
    next hnext => exact absurd (Worklist.next?_eq_none_iff.1 hnext) hpending
    next => rfl

/-- Of two explorations, the one with the lower limit gives a part of what the other one gives. -/
theorem explore_limit (detectors : List Detector) (o : Options) (flow : ControlFlow) (hle : n ≤ m) :
    let short := explore detectors { o with maxSteps := n } flow
    let long := explore detectors { o with maxSteps := m } flow
    (∃ g h, short.graph? = some g ∧ long.graph? = some h ∧ g.Extends h) ∧
      Finding.Grown short.journal.findings long.journal.findings ∧
      (short.status ≠ .incomplete (.stepsExceeded n) → short = long) := by
  intro short long
  by_cases hstatus : short.status = .incomplete (.stepsExceeded n)
  · obtain ⟨done, x, hx, hlength, _⟩ := status_eq_stepsExceeded_iff.1 hstatus
    have hshort := hx.run_eq rfl (Nat.le_of_eq hlength)
    have hlong := (hx.of_limit m).run_eq rfl (hlength ▸ hle)
    rw [hlength, Nat.sub_self] at hshort
    -- the first run ends at `x`, where the second one goes on
    obtain ⟨hgraph, hfindings⟩ := run_zero detectors { o with maxSteps := n } x
    have hgrows := (run_ran detectors { o with maxSteps := m } (m - done.length) x).extends
    rw [← hshort] at hgraph hfindings
    rw [← hlong] at hgrows
    refine ⟨⟨_, _, rfl, rfl, ?_⟩, ?_, absurd hstatus⟩
    · rw [hgraph]
      exact hgrows.graph
    · show Finding.Grown ((start _ flow).run detectors _ n).1.journal.findings _
      rw [hfindings]
      exact hgrows.journal.findings
  · have hran := run_ran detectors { o with maxSteps := n } n (start o flow)
    have hrun : (start { o with maxSteps := m } flow).run detectors { o with maxSteps := m } m =
        (start o flow).run detectors { o with maxSteps := n } n := by
      have hlonger := hran.run_eq hstatus m (m - n)
      rw [Nat.add_sub_cancel' hle] at hlonger
      exact hlonger
    have heq : short = long := by
      unfold short long explore
      rw [hrun]
      rfl
    rw [← heq]
    exact ⟨⟨_, _, rfl, rfl, .refl _⟩, .refl _, fun _ => rfl⟩

/-- The limit on steps only cuts an exploration off: with a lower limit the same nodes are found and
the same findings reported up to some point, and all of them if the limit was not reached. -/
theorem analyze_truncated (detectors : List Detector) (o : Options) (r : Routine) (hle : n ≤ m) :
    let short := r.analyze detectors { o with maxSteps := n }
    let long := r.analyze detectors { o with maxSteps := m }
    short.statistics.steps ≤ n ∧
      (short.status = .incomplete (.stepsExceeded n) ↔
        ∃ flow done x, ControlFlow.ofRoutine r = .ok flow ∧
          Reached detectors { o with maxSteps := n } flow done x none ∧ done.length = n ∧
          x.pending.toList ≠ []) ∧
      (∀ g, short.graph? = some g → ∃ h, long.graph? = some h ∧ g.Extends h) ∧
      Finding.Grown short.journal.findings long.journal.findings ∧
      (short.status ≠ .incomplete (.stepsExceeded n) → short = long) := by
  unfold Routine.analyze
  cases hflow : ControlFlow.ofRoutine r with
  | error f =>
    refine ⟨Nat.zero_le n, ⟨?_, ?_⟩, ?_, .refl _, fun _ => rfl⟩
    · intro hstatus
      cases hstatus
    · rintro ⟨flow, _, _, hok, _⟩
      cases hok
    · intro g hg
      cases hg
  | ok flow =>
    have hstart : Reached detectors { o with maxSteps := n } flow [] (start o flow) none := .start
    have hsteps := (run_ran detectors { o with maxSteps := n } n (start o flow)).steps_le hstart
    obtain ⟨⟨g, h, hg, hh, hextends⟩, hfindings, hsame⟩ := explore_limit detectors o flow hle
    refine ⟨?_, ?_, ?_, hfindings, hsame⟩
    · rw [List.length_nil, Nat.zero_add] at hsteps
      exact hsteps
    · rw [status_eq_stepsExceeded_iff]
      constructor
      · rintro ⟨done, x, hx⟩
        exact ⟨flow, done, x, rfl, hx⟩
      · rintro ⟨_, done, x, ⟨⟩, hx⟩
        exact ⟨done, x, hx⟩
    · intro g' hg'
      cases hg.symm.trans hg'
      exact ⟨h, hh, hextends⟩

def Routine.straight : Routine where
  name := "straight"
  entry := 0
  blocks := [
    { id := 0
      instructions := [
        .literal .null (.source 1 1), .assign "a" (.source 1 5), .read "a" (.source 2 1)]
      terminator := .exit }]

theorem analyze_truncated_straight :
    (Routine.straight.analyze [.watcher] { maxSteps := 2 }).status =
        .incomplete (.stepsExceeded 2) ∧
      (Routine.straight.analyze [.watcher] { maxSteps := 9 }).status = .complete ∧
      (∀ g, (Routine.straight.analyze [.watcher] { maxSteps := 2 }).graph? = some g →
        ∃ h, (Routine.straight.analyze [.watcher] { maxSteps := 9 }).graph? = some h ∧
          g.Extends h) ∧
      (Routine.straight.analyze [.watcher] { maxSteps := 2 }).journal.findings.length = 2 ∧
      (Routine.straight.analyze [.watcher] { maxSteps := 9 }).journal.findings.length = 4 ∧
      Finding.Grown (Routine.straight.analyze [.watcher] { maxSteps := 2 }).journal.findings
        (Routine.straight.analyze [.watcher] { maxSteps := 9 }).journal.findings := by
  have hstatus :
      (Routine.straight.analyze [.watcher] { maxSteps := 2 }).status =
          .incomplete (.stepsExceeded 2) ∧
        (Routine.straight.analyze [.watcher] { maxSteps := 9 }).status = .complete := by
    decide +kernel
  have hcounts :
      (Routine.straight.analyze [.watcher] { maxSteps := 2 }).journal.findings.length = 2 ∧
        (Routine.straight.analyze [.watcher] { maxSteps := 9 }).journal.findings.length = 4 := by
    decide +kernel
  obtain ⟨_, _, hgraph, hfindings, _⟩ :=
    analyze_truncated [.watcher] {} Routine.straight (show 2 ≤ 9 by decide)
  exact ⟨hstatus.1, hstatus.2, hgraph, hcounts.1, hcounts.2, hfindings⟩

end Pathwise
