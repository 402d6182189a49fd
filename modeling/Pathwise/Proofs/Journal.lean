import Pathwise.Proofs.Findings
import Pathwise.Proofs.Run

namespace Pathwise

def Terminator.leave? : Terminator → State → Option State
  | .ret true _, s => s.pop.toOption.map Prod.fst
  | .ret false _, s | .exit, s => some s
  | _, _ => none

theorem Terminator.leave?_eq_some {τ : Terminator} {s u : State} (h : τ.leave? s = some u) :
    (∃ stack, u = { s with stack }) ∧ ∀ {detectors o x id node},
      Exploration.terminate detectors o x id node s τ =
        (x.endPath detectors o id node u, none) := by
  unfold leave? at h
  split at h
  next =>
    obtain ⟨⟨t, v⟩, hpop, rfl⟩ := Option.map_eq_some_iff.1 h
    unfold State.pop at hpop
    split at hpop
    · cases hpop
    next hstack =>
      cases hpop
      refine ⟨⟨_, rfl⟩, ?_⟩
      simp only [Exploration.terminate, State.pop, hstack]
      exact rfl
  next =>
    cases h
    exact ⟨⟨_, rfl⟩, rfl⟩
  next =>
    cases h
    exact ⟨⟨_, rfl⟩, rfl⟩
  next => cases h

namespace Exploration

variable {detectors : List Detector} {o : Options} {x y z : Exploration} {id : NodeId} {node : Node}
  {s t : State}

/-- The second exploration reports all that the first one does, and of the paths that ended since
then each left by an exception. -/
structure Later (x y : Exploration) : Prop where
  journal : x.journal.Extends y.journal
  ended : ∀ t ∈ y.ended.items, t ∈ x.ended.items ∨ t.exit?.isSome

theorem Later.of_journal (h : x.journal.Extends y.journal) (hended : y.ended = x.ended) :
    Later x y :=
  ⟨h, fun _ ht => .inl (hended ▸ ht)⟩

theorem Later.refl (x : Exploration) : Later x x := .of_journal (.refl _) rfl

theorem Later.trans (h : Later x y) (h' : Later y z) : Later x z where
  journal := h.journal.trans h'.journal
  ended t ht := (h'.ended t ht).elim (h.ended t) .inr

theorem Later.enqueue (h : Later x y) (p : Point) (s : State) (e : Edge) :
    Later x (y.enqueue o p s e) := by
  refine h.trans ?_
  unfold Exploration.enqueue
  dsimp only
  split
  · exact .of_journal (.refl _) rfl
  · split
    · exact .of_journal (Journal.extends_write _ _ _ _) rfl
    · exact .of_journal (.refl _) rfl

theorem Later.foldl_enqueue {α : Type} (f : α → Successor) (id : NodeId) (as : List α)
    (h : Later x y) :
    Later x (as.foldl
      (fun x a => x.enqueue o (f a).point (f a).state ⟨id, (f a).exceptional⟩) y) := by
  induction as generalizing y with
  | nil => exact h
  | cons a as ih => exact ih (h.enqueue _ _ _)

/-- A terminal state that is new is remembered, and the detectors are asked about it. -/
theorem endPath_of_new (hnew : ∀ t ∈ x.ended.items, ¬ t ≈ s.cleanup) :
    (x.endPath detectors o id node s).ended = x.ended.push s.cleanup ∧
      (x.endPath detectors o id node s).journal = detectors.foldl
        (fun j d => j.add o d.name .pathEnd (d.pathEnd (x.view o id node s.cleanup))) x.journal := by
  have hfind : x.ended.find? s.cleanup.mark (fun t => decide (t ≈ s.cleanup)) = none := by
    rw [Indexed.find?_eq_findIdx? fun t ht => State.mark_eq_of_equiv (of_decide_eq_true ht),
      Array.findIdx?_eq_none_iff]
    exact fun t ht => decide_eq_false (hnew t ht)
  unfold endPath
  dsimp only
  rw [if_neg (by rw [hfind]; exact Bool.false_ne_true)]
  exact ⟨rfl, rfl⟩

theorem endPath_of_known (hknown : ¬ ∀ t ∈ x.ended.items, ¬ t ≈ s.cleanup) :
    (x.endPath detectors o id node s).ended = x.ended ∧
      (x.endPath detectors o id node s).journal = x.journal := by
  have hfind : (x.ended.find? s.cleanup.mark (fun t => decide (t ≈ s.cleanup))).isSome := by
    rw [Indexed.find?_eq_findIdx? fun t ht => State.mark_eq_of_equiv (of_decide_eq_true ht),
      Array.findIdx?_isSome, Array.any_eq_true']
    obtain ⟨t, ht⟩ := Classical.not_forall.1 hknown
    obtain ⟨ht, hequiv⟩ := Classical.not_imp.1 ht
    exact ⟨t, ht, decide_eq_true (Classical.not_not.1 hequiv)⟩
  unfold endPath
  dsimp only
  rw [if_pos hfind]
  exact ⟨rfl, rfl⟩

theorem extends_endPath (detectors : List Detector) (x : Exploration) (id : NodeId) (node : Node)
    (s : State) : x.journal.Extends (x.endPath detectors o id node s).journal := by
  by_cases hnew : ∀ t ∈ x.ended.items, ¬ t ≈ s.cleanup
  · rw [(endPath_of_new hnew).2]
    exact Journal.extends_foldl_add _ _ _ _ _
  · rw [(endPath_of_known hnew).2]
    exact .refl _

theorem mem_ended_endPath (h : t ∈ (x.endPath detectors o id node s).ended.items) :
    t ∈ x.ended.items ∨ t = s.cleanup ∧ ∀ u ∈ x.ended.items, ¬ u ≈ t := by
  by_cases hnew : ∀ t ∈ x.ended.items, ¬ t ≈ s.cleanup
  · rw [(endPath_of_new hnew).1, Indexed.items_push, Array.mem_push] at h
    exact h.imp_right fun h => ⟨h, h ▸ hnew⟩
  · rw [(endPath_of_known hnew).1] at h
    exact .inl h

theorem later_raise {exception : Value} (h : x.raise detectors o id node s exception = (y, none)) :
    Later x y := by
  obtain ⟨handlers, _, h⟩ := attempt_eq_none.1 h
  split at h
  next =>
    cases h
    refine ⟨extends_endPath detectors x id node _, fun t ht => ?_⟩
    rcases mem_ended_endPath ht with ht | ⟨rfl, _⟩
    · exact .inl ht
    · exact .inr rfl
  next =>
    cases h
    exact (Later.refl x).foldl_enqueue (fun handler => ⟨⟨handler, 0⟩, _, true⟩) id handlers

theorem later_throwing {i : Instruction} (h : x.throwing detectors o id node s i = (y, none)) :
    Later x y := by
  unfold throwing at h
  split at h
  next =>
    obtain ⟨thrown?, _, h⟩ := attempt_eq_none.1 h
    cases thrown? with
    | some thrown =>
      have hraise := later_raise h
      exact ⟨hraise.journal, hraise.ended⟩
    | none =>
      cases h
      exact .refl x
  next =>
    cases h
    exact .refl x

theorem later_completing {i : Instruction} (h : x.completing detectors o id node s i = (y, none)) :
    Later x y := by
  obtain ⟨⟨t, left⟩, _, h⟩ := attempt_eq_none.1 h
  have hafter : x.journal.Extends (x.askAfter detectors o id node t (.instruction i)).2.2 :=
    Journal.extends_consult _ _ _ _ _ _
  have hlater : Later x { x with
      supply := left, journal := (x.askAfter detectors o id node t (.instruction i)).2.2 } :=
    .of_journal hafter rfl
  dsimp only at h
  split at h
  next =>
    cases h
    exact ⟨hlater.journal, hlater.ended⟩
  next =>
    cases h
    exact hlater.enqueue _ _ _

theorem later_branch {trueTarget falseTarget : BlockId}
    (h : x.branch o id node s trueTarget falseTarget = (y, none)) : Later x y := by
  obtain ⟨⟨t, condition⟩, _, h⟩ := attempt_eq_none.1 h
  obtain ⟨falseStates, _, h⟩ := attempt_eq_none.1 h
  obtain ⟨trueStates, _, h⟩ := attempt_eq_none.1 h
  cases h
  refine Later.foldl_enqueue (⟨⟨trueTarget, 0⟩, ·, false⟩) id trueStates
    (Later.foldl_enqueue (⟨⟨falseTarget, 0⟩, ·, false⟩) id falseStates ?_)
  exact .of_journal (Journal.extends_write _ _ _ _) rfl

theorem terminate_cases {τ : Terminator}
    (h : x.terminate detectors o id node s τ = (y, none)) :
    Later x y ∨ ∃ t, τ.leave? s = some t ∧ y = x.endPath detectors o id node t := by
  cases τ with
  | goto target =>
    cases h
    exact .inl ((Later.refl x).enqueue _ _ _)
  | branch trueTarget falseTarget pos => exact .inl (later_branch h)
  | ret value pos =>
    cases value with
    | false =>
      cases h
      exact .inr ⟨s, rfl, rfl⟩
    | true =>
      obtain ⟨⟨t, v⟩, hpop, h⟩ := attempt_eq_none.1 h
      cases h
      exact .inr ⟨t, by rw [Terminator.leave?, hpop]; rfl, rfl⟩
  | throw pos =>
    obtain ⟨⟨t, exception⟩, _, h⟩ := attempt_eq_none.1 h
    exact .inl (later_raise h)
  | exit =>
    cases h
    exact .inr ⟨s, rfl, rfl⟩

def terminal? (detectors : List Detector) (o : Options) (x : Exploration) (id : NodeId)
    (node : Node) : Option State :=
  match x.graph.flow.element node.point with
  | .ok (.terminator τ) =>
    let (s, sink, _) := x.askBefore detectors o id node (.terminator τ)
    if sink then none else (τ.leave? s).map State.cleanup
  | _ => none

theorem terminal?_eq_some : x.terminal? detectors o id node = some t ↔
    ∃ τ s j u, x.graph.flow.element node.point = .ok (.terminator τ) ∧
      x.askBefore detectors o id node (.terminator τ) = (s, false, j) ∧ τ.leave? s = some u ∧
      t = u.cleanup := by
  constructor
  · intro h
    unfold terminal? at h
    split at h
    next τ helement =>
      cases hbefore : x.askBefore detectors o id node (.terminator τ) with
      | mk s rest =>
        obtain ⟨sink, j⟩ := rest
        simp only [hbefore] at h
        cases sink with
        | true => cases h
        | false =>
          obtain ⟨u, hu, rfl⟩ := Option.map_eq_some_iff.1 h
          exact ⟨τ, s, j, u, helement, hbefore, hu, rfl⟩
    next => cases h
  · rintro ⟨τ, s, j, u, helement, hbefore, hu, rfl⟩
    simp only [terminal?, helement, hbefore, hu, Bool.false_eq_true, if_false, Option.map_some]

/-- Processing a node takes nothing back, and it ends at most one path without an exception. -/
theorem step_cases {failure? : Option Failure} (h : x.step detectors o id node = (y, failure?)) :
    Later x y ∨ ∃ j s, x.journal.Extends j ∧ x.terminal? detectors o id node = some s.cleanup ∧
      y = Exploration.endPath detectors o { x with journal := j } id node s := by
  have hbefore {element : Element} {s : State} {sink : Bool} {j : Journal}
      (hasked : x.askBefore detectors o id node element = (s, sink, j)) : x.journal.Extends j := by
    have hgrows := Journal.extends_consult o .before
      (fun d s => d.before (x.view o id node s) element) detectors node.state x.journal
    rw [show Journal.consult _ _ _ _ _ _ = _ from hasked] at hgrows
    exact hgrows
  cases step_processed h with
  | missing => exact .inl (.refl x)
  | stopped _ hasked =>
    exact .inl (.of_journal ((hbefore hasked).trans (Journal.extends_write _ _ _ _)) rfl)
  | failed _ hasked => exact .inl (.of_journal (hbefore hasked) rfl)
  | @performed element s j _ helement hasked hperform =>
    have hlater : Later x { x with journal := j } := .of_journal (hbefore hasked) rfl
    cases element with
    | instruction i =>
      obtain ⟨mid, hmid, hcompleting⟩ := instruct_eq_none hperform
      exact .inl ((hlater.trans (later_throwing hmid)).trans (later_completing hcompleting))
    | terminator τ =>
      refine (terminate_cases hperform).imp hlater.trans ?_
      rintro ⟨t, ht, rfl⟩
      exact ⟨j, t, hbefore hasked, terminal?_eq_some.2 ⟨τ, s, j, t, helement, hasked, ht, rfl⟩, rfl⟩

structure Extends (x y : Exploration) : Prop where
  graph : x.graph.Extends y.graph
  journal : x.journal.Extends y.journal

theorem Extends.refl (x : Exploration) : x.Extends x := ⟨.refl _, .refl _⟩

theorem Extends.trans (h : x.Extends y) (h' : y.Extends z) : x.Extends z :=
  ⟨h.graph.trans h'.graph, h.journal.trans h'.journal⟩

theorem extends_step {failure? : Option Failure} (h : x.step detectors o id node = (y, failure?)) :
    x.Extends y := by
  refine ⟨(step_stepped h).extends, ?_⟩
  rcases step_cases h with h | ⟨j, s, hj, _, rfl⟩
  · exact h.journal
  · exact hj.trans (extends_endPath detectors { x with journal := j } id node s)

/-- The detectors are asked about a terminal state that is new, and all that they say is reported. -/
theorem reported_of_terminal? (h : x.terminal? detectors o id node = some t)
    (hnew : ∀ u ∈ x.ended.items, ¬ u ≈ t) {d : Detector} (hd : d ∈ detectors) :
    ∃ y, x.step detectors o id node = (y, none) ∧
      (∀ i ∈ (d.pathEnd (x.view o id node t)).issues,
        (d.name, i.pos, i.message) ∈ y.journal.findings.map Finding.subject) ∧
      ∀ n ∈ (d.pathEnd (x.view o id node t)).notes, n ∈ y.journal.log.toList := by
  obtain ⟨τ, s, j, u, helement, hbefore, hu, rfl⟩ := terminal?_eq_some.1 h
  have hstep : x.step detectors o id node =
      (Exploration.endPath detectors o { x with journal := j } id node u, none) := by
    simp only [step, helement, hbefore, Bool.false_eq_true, if_false, perform,
      (Terminator.leave?_eq_some hu).2]
  refine ⟨_, hstep, ?_⟩
  rw [(endPath_of_new (x := { x with journal := j }) hnew).2]
  exact Journal.mem_foldl_add o .pathEnd (fun d => d.pathEnd (x.view o id node u.cleanup)) hd j

theorem extends_recordFailure (x : Exploration) (node : Node) (f : Failure) :
    x.Extends (x.recordFailure node f) := by
  refine ⟨.refl _, ?_⟩
  unfold recordFailure
  dsimp only
  split <;> exact Journal.extends_write _ _ _ _

theorem extends_proceed (x : Exploration) (pending : Worklist) : x.Extends (x.proceed pending) :=
  ⟨.refl _, .refl _⟩

theorem Ran.extends {left : Nat} {status : Status} (h : Ran detectors o left x y status) :
    x.Extends y := by
  induction h with
  | complete => exact .refl _
  | exhausted => exact ⟨.refl _, Journal.extends_write _ _ _ _⟩
  | missing _ _ _ ih => exact ⟨ih.graph, ih.journal⟩
  | step _ _ hstep _ ih => exact (extends_proceed _ _).trans ((extends_step hstep).trans ih)
  | failed _ _ hstep =>
    exact (extends_proceed _ _).trans ((extends_step hstep).trans (extends_recordFailure _ _ _))

variable {flow : ControlFlow} {done : List NodeId}

/-- A run goes through every moment that its limit allows. -/
theorem Reached.run_eq {failure? : Option Failure} (h : Reached detectors o flow done x failure?)
    (hfailure : failure? = none) {limit : Nat} (hle : done.length ≤ limit) :
    (Exploration.start o flow).run detectors o limit =
      x.run detectors o (limit - done.length) := by
  induction h with
  | start => rfl
  | @step done x id pending node y _ hx hnext hnode hstep ih =>
    subst hfailure
    rw [List.length_append, List.length_singleton] at hle ⊢
    have hleft : limit - done.length = limit - (done.length + 1) + 1 := by omega
    rw [ih rfl (Nat.le_of_succ_le hle), hleft, run_of_step hnext hnode hstep]

theorem Reached.length_le {failure? : Option Failure} (h : Reached detectors o flow done x failure?)
    {limit : Nat}
    (hcomplete : ((Exploration.start o flow).run detectors o limit).2 = .complete) :
    done.length ≤ limit := by
  induction h with
  | start => exact Nat.zero_le _
  | step hx hnext _ _ ih =>
    rw [List.length_append, List.length_singleton]
    apply Nat.lt_of_le_of_ne ih
    intro hlength
    rw [hx.run_eq rfl ih, hlength, Nat.sub_self, Exploration.run, hnext] at hcomplete
    contradiction

/-- What has been reported at some moment is reported in the end. -/
theorem Reached.extends_explore (h : Reached detectors o flow done x none)
    (hcomplete : (explore detectors o flow).status = .complete) :
    (∀ a ∈ x.journal.findings.map Finding.subject,
        a ∈ (explore detectors o flow).journal.findings.map Finding.subject) ∧
      ∀ r ∈ x.journal.log.toList,
        r.within flow.name ∈ (explore detectors o flow).journal.log.toList := by
  have hgrows :
      x.journal.Extends ((Exploration.start o flow).run detectors o o.maxSteps).1.journal := by
    rw [h.run_eq rfl (h.length_le hcomplete)]
    exact (run_ran detectors o _ x).extends.journal
  refine ⟨fun a ha => hgrows.findings.map_subject.subset ha, fun r hr => ?_⟩
  have hmem := hgrows.log.subset hr
  simp only [explore, Journal.write, Array.toList_map, Array.toList_push]
  exact List.mem_map_of_mem (List.mem_append_left _ hmem)

/-- At the moment `x`, a path returns at the node `id` in the terminal state `t`. -/
structure Returns (detectors : List Detector) (o : Options) (flow : ControlFlow) (x : Exploration)
    (id : NodeId) (t : State) : Prop where
  reached : ∃ done, Reached detectors o flow done x none
  next : ∃ pending, x.pending.next? = some (id, pending)
  terminal : ∃ node, x.graph.node? id = some node ∧ x.terminal? detectors o id node = some t

/-- The return, if it is one, that the next step after so many makes. -/
def returned? (detectors : List Detector) (o : Options) (flow : ControlFlow) (k : Nat) :
    Option (Exploration × NodeId × State) := do
  let (_, x) ← moment? detectors o flow k
  let (id, _) ← x.pending.next?
  let node ← x.graph.node? id
  let t ← x.terminal? detectors o id node
  return (x, id, t)

theorem returns_of_returned? {k : Nat} (h : returned? detectors o flow k = some (x, id, t)) :
    Returns detectors o flow x id t := by
  obtain ⟨⟨done, x'⟩, hmoment, h⟩ := Option.bind_eq_some_iff.1 h
  obtain ⟨⟨id', pending⟩, hnext, h⟩ := Option.bind_eq_some_iff.1 h
  obtain ⟨node, hnode, h⟩ := Option.bind_eq_some_iff.1 h
  obtain ⟨t', hterminal, h⟩ := Option.bind_eq_some_iff.1 h
  cases h
  exact ⟨⟨done, reached_of_moment? hmoment⟩, ⟨pending, hnext⟩, node, hnode, hterminal⟩

theorem Returns.exists_returned? (h : Returns detectors o flow x id t) (limit : Nat)
    (hcomplete : ((Exploration.start o flow).run detectors o limit).2 = .complete) :
    ∃ k ≤ limit, returned? detectors o flow k = some (x, id, t) := by
  obtain ⟨⟨done, hx⟩, ⟨pending, hnext⟩, node, hnode, hterminal⟩ := h
  refine ⟨done.length, hx.length_le hcomplete, ?_⟩
  simp only [returned?, hx.moment?_eq rfl, Option.bind_eq_bind, Option.bind_some, hnext, hnode,
    hterminal]
  rfl

theorem Reached.exists_returns {failure? : Option Failure}
    (h : Reached detectors o flow done x failure?) (ht : t ∈ x.ended.items)
    (hexit : t.exit? = none) :
    ∃ y i, Returns detectors o flow y i t ∧ ∀ u ∈ y.ended.items, ¬ u ≈ t := by
  induction h with
  | start => exact absurd ht (Array.not_mem_empty t)
  | @step done x id pending node y _ hx hnext hnode hstep ih =>
    rcases step_cases hstep with hlater | ⟨j, s, _, hterminal, rfl⟩
    · rcases hlater.ended t ht with ht | hsome
      · exact ih ht
      · rw [hexit] at hsome
        cases hsome
    · rcases mem_ended_endPath ht with ht | ⟨rfl, hnew⟩
      · exact ih ht
      · exact ⟨x, id, ⟨⟨done, hx⟩, ⟨pending, hnext⟩, node, hnode, hterminal⟩, hnew⟩

/-- For every path that returns, there is a first one that returns in the same state. -/
theorem Returns.exists_first (h : Returns detectors o flow x id t) (hexit : t.exit? = none) :
    ∃ y i u, Returns detectors o flow y i u ∧ (∀ s ∈ y.ended.items, ¬ s ≈ u) ∧ u ≈ t ∧
      u.exit? = none := by
  by_cases hnew : ∀ u ∈ x.ended.items, ¬ u ≈ t
  · exact ⟨x, id, t, h, hnew, Setoid.refl t, hexit⟩
  · obtain ⟨u, hu⟩ := Classical.not_forall.1 hnew
    obtain ⟨hu, hequiv⟩ := Classical.not_imp.1 hu
    have hequiv := Classical.not_not.1 hequiv
    obtain ⟨done, hx⟩ := h.reached
    have ⟨_, _, _, _, hsame⟩ := hequiv
    rw [hexit] at hsame
    have hexit := Option.map_eq_none_iff.1 hsame
    obtain ⟨y, i, hy, hfirst⟩ := hx.exists_returns hu hexit
    exact ⟨y, i, u, hy, hfirst, hequiv, hexit⟩

end Exploration

end Pathwise
