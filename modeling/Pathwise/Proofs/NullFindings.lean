import Pathwise.Proofs.Dereference

namespace Pathwise

namespace Exploration

structure Foresees (d : Detector) : Prop where
  after : ∀ w element, (d.after w element).issues = []
  pathEnd : ∀ w, (d.pathEnd w).issues = []

variable {detectors : List Detector} {o : Options} {x y : Exploration} {id : NodeId} {node : Node}
  {s : State}

theorem findings_enqueue (x : Exploration) (p : Point) (s : State) (e : Edge) :
    (x.enqueue o p s e).journal.findings = x.journal.findings := by
  unfold enqueue
  dsimp only
  split
  · rfl
  · split <;> rfl

theorem findings_foldl_enqueue {α : Type} (f : α → Successor) (id : NodeId) (as : List α)
    (x : Exploration) :
    (as.foldl (fun x a => x.enqueue o (f a).point (f a).state ⟨id, (f a).exceptional⟩)
      x).journal.findings = x.journal.findings := by
  induction as generalizing x with
  | nil => rfl
  | cons a as ih => exact (ih _).trans (findings_enqueue _ _ _ _)

theorem findings_endPath (h : ∀ d ∈ detectors, Foresees d) (x : Exploration) (id : NodeId)
    (node : Node) (s : State) :
    (x.endPath detectors o id node s).journal.findings = x.journal.findings := by
  unfold endPath
  dsimp only
  split
  · rfl
  · exact Journal.findings_foldl_add (fun d hd => (h d hd).pathEnd _) o x.journal

theorem findings_raise (h : ∀ d ∈ detectors, Foresees d) {exception : Value}
    (hraise : x.raise detectors o id node s exception = (y, none)) :
    y.journal.findings = x.journal.findings := by
  obtain ⟨handlers, _, hraise⟩ := attempt_eq_none.1 hraise
  split at hraise
  next =>
    cases hraise
    exact findings_endPath h x id node _
  next =>
    cases hraise
    exact findings_foldl_enqueue (fun handler => ⟨⟨handler, 0⟩, _, true⟩) id handlers x

theorem findings_throwing (h : ∀ d ∈ detectors, Foresees d) {i : Instruction}
    (hthrowing : x.throwing detectors o id node s i = (y, none)) :
    y.journal.findings = x.journal.findings := by
  unfold throwing at hthrowing
  split at hthrowing
  next =>
    obtain ⟨thrown?, _, hthrowing⟩ := attempt_eq_none.1 hthrowing
    cases thrown? with
    | some thrown =>
      have hraise := findings_raise h hthrowing
      exact hraise
    | none =>
      cases hthrowing
      rfl
  next =>
    cases hthrowing
    rfl

theorem findings_completing (h : ∀ d ∈ detectors, Foresees d) {i : Instruction}
    (hcompleting : x.completing detectors o id node s i = (y, none)) :
    y.journal.findings = x.journal.findings := by
  obtain ⟨⟨t, left⟩, _, hcompleting⟩ := attempt_eq_none.1 hcompleting
  have hafter : (x.askAfter detectors o id node t (.instruction i)).2.2.findings =
      x.journal.findings :=
    Journal.findings_consult (fun d hd _ => (h d hd).after _ _) o t x.journal
  dsimp only at hcompleting
  split at hcompleting
  next =>
    cases hcompleting
    exact hafter
  next =>
    cases hcompleting
    exact (findings_enqueue _ _ _ _).trans hafter

theorem findings_branch {trueTarget falseTarget : BlockId}
    (h : x.branch o id node s trueTarget falseTarget = (y, none)) :
    y.journal.findings = x.journal.findings := by
  obtain ⟨⟨t, condition⟩, _, h⟩ := attempt_eq_none.1 h
  obtain ⟨falseStates, _, h⟩ := attempt_eq_none.1 h
  obtain ⟨trueStates, _, h⟩ := attempt_eq_none.1 h
  cases h
  exact (findings_foldl_enqueue (⟨⟨trueTarget, 0⟩, ·, false⟩) id trueStates _).trans
    (findings_foldl_enqueue (⟨⟨falseTarget, 0⟩, ·, false⟩) id falseStates _)

theorem findings_terminate (h : ∀ d ∈ detectors, Foresees d) {τ : Terminator}
    (hterminate : x.terminate detectors o id node s τ = (y, none)) :
    y.journal.findings = x.journal.findings := by
  cases τ with
  | goto target =>
    cases hterminate
    exact findings_enqueue _ _ _ _
  | branch trueTarget falseTarget pos => exact findings_branch hterminate
  | ret value pos =>
    cases value with
    | false =>
      cases hterminate
      exact findings_endPath h x id node s
    | true =>
      obtain ⟨⟨t, v⟩, _, hterminate⟩ := attempt_eq_none.1 hterminate
      cases hterminate
      exact findings_endPath h x id node t
  | throw pos =>
    obtain ⟨⟨t, exception⟩, _, hterminate⟩ := attempt_eq_none.1 hterminate
    exact findings_raise h hterminate
  | exit =>
    cases hterminate
    exact findings_endPath h x id node s

theorem findings_perform (h : ∀ d ∈ detectors, Foresees d) {element : Element}
    (hperform : x.perform detectors o id node s element = (y, none)) :
    y.journal.findings = x.journal.findings := by
  cases element with
  | instruction i =>
    obtain ⟨mid, hmid, hcompleting⟩ := instruct_eq_none hperform
    exact (findings_completing h hcompleting).trans (findings_throwing h hmid)
  | terminator τ => exact findings_terminate h hperform

end Exploration

namespace Detector.NullDereference

/-- The element takes a member of the value so far below the top of the stack, or calls a method
on it. -/
inductive Dereferences : Element → Nat → Prop
  | memberSelect (field : String) (type : ValueType) (pos : Position) :
      Dereferences (.instruction (.memberSelect field type pos)) 0
  | invoke (method : Method) (arguments : List Argument) (pos : Position) :
      Dereferences (.instruction (.invoke method true arguments pos)) arguments.length

theorem receiverDepth?_eq_some {element : Element} {depth : Nat} :
    receiverDepth? element = some depth ↔ Dereferences element depth := by
  constructor
  · intro h
    unfold receiverDepth? at h
    split at h
    · cases h
      exact .memberSelect _ _ _
    · cases h
      exact .invoke _ _ _
    · cases h
  · rintro (⟨field, type, pos⟩ | ⟨method, arguments, pos⟩) <;> rfl

/-- The node is about to dereference null, at this position; the text names the variable that holds
the receiver. -/
inductive Fails (flow : ControlFlow) (n : Node) : Position → String → Prop
  | intro {element depth v} : flow.element n.point = .ok element → Dereferences element depth →
      n.state.stack[depth]? = some v → n.state.constraint? v .object = some .null →
      Fails flow n element.pos (message (flow.operandVariable? n.point depth))

theorem Fails.congr {flow : ControlFlow} {m n : Node} {pos : Position} {text : String}
    (h : Fails flow m pos text) (hpoint : n.point = m.point) (hstate : n.state = m.state) :
    Fails flow n pos text := by
  cases h with
  | intro helement hdereferences hv hnull =>
    rw [← hpoint] at helement ⊢
    rw [← hstate] at hv hnull
    exact .intro helement hdereferences hv hnull

theorem Fails.unique {flow : ControlFlow} {n : Node} {pos pos' : Position} {text text' : String}
    (h : Fails flow n pos text) (h' : Fails flow n pos' text') : pos' = pos ∧ text' = text := by
  cases h with
  | intro helement hdereferences =>
    cases h' with
    | intro helement' hdereferences' =>
      cases helement.symm.trans helement'
      cases hdereferences <;> cases hdereferences' <;> exact ⟨rfl, rfl⟩

variable {x : Exploration} {n : Node} {element : Element}

/-- The detector reports a node that fails, and stops the path there. -/
theorem before_of_fails {pos : Position} {text : String} (h : Fails x.graph.flow n pos text)
    (helement : x.graph.flow.element n.point = .ok element) (o : Options) (id : NodeId) :
    (∃ flows, (before (x.view o id n n.state) element).issues = [⟨pos, text, flows⟩]) ∧
      (before (x.view o id n n.state) element).sink = true := by
  cases h with
  | @intro element' depth v helement' hdereferences hv hnull =>
    cases helement.symm.trans helement'
    have hstate : (x.view o id n n.state).state = n.state := rfl
    simp only [before, receiverDepth?_eq_some.2 hdereferences, hstate, State.peek, hv, hnull]
    exact ⟨⟨_, rfl⟩, rfl⟩

theorem before_of_not_fails (h : ∀ pos text, ¬ Fails x.graph.flow n pos text)
    (helement : x.graph.flow.element n.point = .ok element) (o : Options) (id : NodeId) :
    (before (x.view o id n n.state) element).issues = [] ∧
      (before (x.view o id n n.state) element).sink = false := by
  unfold before
  split
  · exact ⟨rfl, rfl⟩
  next depth hdepth =>
    split
    · exact ⟨rfl, rfl⟩
    next v hv =>
      split
      next hnull =>
        have hstack : n.state.stack[depth]? = some v := by
          change n.state.peek depth = .ok v at hv
          unfold State.peek at hv
          split at hv
          next heq =>
            cases hv
            exact heq
          next => cases hv
        exact absurd (.intro helement (receiverDepth?_eq_some.1 hdepth) hstack hnull) (h _ _)
      · exact ⟨rfl, rfl⟩
      · exact ⟨rfl, rfl⟩

theorem detector_foresees : ∀ d ∈ [detector], Exploration.Foresees d := by
  intro d hd
  cases List.mem_singleton.1 hd
  exact ⟨fun _ _ => rfl, fun _ => rfl⟩

end Detector.NullDereference

open Detector NullDereference

namespace Exploration

variable {o : Options} {x y : Exploration} {id : NodeId} {node : Node} {failure? : Option Failure}

/-- Asking the detector about a node takes down its issues, and does nothing else to the findings. -/
theorem askBefore_reports {element : Element} {s : State} {sink : Bool} {j : Journal}
    (h : x.askBefore [detector] o id node element = (s, sink, j)) :
    (before (x.view o id node node.state) element).sink = sink ∧
      j.findings = (before (x.view o id node node.state) element).issues.foldl
        (fun fs i => Finding.report o.maxFlows NullDereference.name i fs) x.journal.findings := by
  have hconsult : Journal.consult o .before
      (fun d s => d.before (x.view o id node s) element) [detector] node.state x.journal =
        (s, sink, j) := h
  have hsink := (Journal.consult_singleton hconsult).1
  rw [Journal.consult_cons] at hconsult
  split at hconsult
  · cases hconsult
    exact ⟨hsink, Journal.findings_add _ _ _ _ _⟩
  · cases hconsult
    exact ⟨hsink, Journal.findings_add _ _ _ _ _⟩

/-- Processing a node that fails reports it, and leads nowhere. -/
theorem step_of_fails {pos : Position} {text : String}
    (hfails : Fails x.graph.flow node pos text) (h : x.step [detector] o id node = (y, failure?)) :
    y.graph = x.graph ∧ ∃ flows, y.journal.findings =
      Finding.report o.maxFlows NullDereference.name ⟨pos, text, flows⟩ x.journal.findings := by
  have hgoes {element : Element} {s : State} {j : Journal}
      (helement : x.graph.flow.element node.point = .ok element)
      (hbefore : x.askBefore [detector] o id node element = (s, false, j)) : False := by
    have hsink := (askBefore_reports hbefore).1
    rw [(before_of_fails hfails helement o id).2] at hsink
    contradiction
  cases step_processed h with
  | missing helement =>
    cases hfails with
    | intro helement' => cases helement.symm.trans helement'
  | failed helement hbefore => exact (hgoes helement hbefore).elim
  | performed helement hbefore => exact (hgoes helement hbefore).elim
  | stopped helement hbefore =>
    obtain ⟨flows, hissues⟩ := (before_of_fails hfails helement o id).1
    have hfindings := (askBefore_reports hbefore).2
    rw [hissues] at hfindings
    exact ⟨rfl, flows, hfindings⟩

theorem step_of_not_fails (hfine : ∀ pos text, ¬ Fails x.graph.flow node pos text)
    (h : x.step [detector] o id node = (y, failure?)) :
    y.journal.findings = x.journal.findings := by
  have hbefore {element : Element} {s : State} {sink : Bool} {j : Journal}
      (helement : x.graph.flow.element node.point = .ok element)
      (hasked : x.askBefore [detector] o id node element = (s, sink, j)) :
      j.findings = x.journal.findings := by
    have hfindings := (askBefore_reports hasked).2
    rw [(before_of_not_fails hfine helement o id).1] at hfindings
    exact hfindings
  cases step_processed h with
  | missing => rfl
  | stopped helement hasked =>
    have hfindings := hbefore helement hasked
    exact hfindings
  | failed helement hasked => exact hbefore helement hasked
  | performed helement hasked hperform =>
    exact (findings_perform detector_foresees hperform).trans (hbefore helement hasked)

/-- The findings are those of the nodes `done` that fail, and no edge leads on from a failing
node. -/
structure Accounts (flow : ControlFlow) (done : List NodeId) (x : Exploration) : Prop where
  subjects : ∀ a, a ∈ x.journal.findings.map Finding.subject ↔
    ∃ id ∈ done, ∃ n pos text, x.graph.node? id = some n ∧ Fails flow n pos text ∧
      a = (NullDereference.name, pos, text)
  nodup : (x.journal.findings.map Finding.subject).Nodup
  edges : ∀ {i n e}, x.graph.node? i = some n → e ∈ n.parents →
    ∃ m, x.graph.node? e.parent = some m ∧ ∀ pos text, ¬ Fails flow m pos text

variable {flow : ControlFlow} {done : List NodeId}

theorem accounts_start (o : Options) (flow : ControlFlow) :
    (Exploration.start o flow).Accounts flow [] := by
  refine ⟨fun a => ?_, List.Pairwise.nil, fun hn he => ?_⟩
  · simp [Exploration.start]
  · rw [(start_node? hn).2] at he
    contradiction

theorem failing_extends (hdone : ∀ i ∈ done, ∃ m, x.graph.node? i = some m)
    (hextends : x.graph.Extends y.graph) {a : String × Position × String} :
    (∃ i ∈ done, ∃ n pos text, y.graph.node? i = some n ∧ Fails flow n pos text ∧
        a = (NullDereference.name, pos, text)) ↔
      ∃ i ∈ done, ∃ n pos text, x.graph.node? i = some n ∧ Fails flow n pos text ∧
        a = (NullDereference.name, pos, text) := by
  constructor
  · rintro ⟨i, hi, n, pos, text, hn, hfails, ha⟩
    obtain ⟨m, hm⟩ := hdone i hi
    obtain ⟨n', hn', hsame⟩ := hextends.node hm
    cases hn.symm.trans hn'
    exact ⟨i, hi, m, pos, text, hm, hfails.congr hsame.point.symm hsame.state.symm, ha⟩
  · rintro ⟨i, hi, m, pos, text, hm, hfails, ha⟩
    obtain ⟨n, hn, hsame⟩ := hextends.node hm
    exact ⟨i, hi, n, pos, text, hn, hfails.congr hsame.point hsame.state, ha⟩

theorem Accounts.step (hx : x.Accounts flow done) (hflow : x.graph.flow = flow)
    (hdone : ∀ i ∈ done, ∃ m, x.graph.node? i = some m) (hnode : x.graph.node? id = some node)
    (h : x.step [detector] o id node = (y, failure?)) : y.Accounts flow (done ++ [id]) := by
  have hextends := (step_stepped h).extends
  obtain ⟨node', hnode', hsame⟩ := hextends.node hnode
  by_cases hfails : ∃ pos text, Fails x.graph.flow node pos text
  · obtain ⟨pos, text, hfails⟩ := hfails
    obtain ⟨hgraph, flows, hfindings⟩ := step_of_fails hfails h
    rw [hflow] at hfails
    refine ⟨fun a => ?_, ?_, ?_⟩
    · rw [hfindings, Finding.mem_map_subject_report, hx.subjects a, hgraph]
      constructor
      · rintro (⟨i, hi, hrest⟩ | rfl)
        · exact ⟨i, List.mem_append_left _ hi, hrest⟩
        · exact ⟨id, List.mem_append_right _ (.head _), node, pos, text, hnode, hfails, rfl⟩
      · rintro ⟨i, hi, n, pos', text', hn, hfails', ha⟩
        rcases List.mem_append.1 hi with hi | hi
        · exact .inl ⟨i, hi, n, pos', text', hn, hfails', ha⟩
        · cases List.mem_singleton.1 hi
          cases hnode.symm.trans hn
          obtain ⟨rfl, rfl⟩ := hfails.unique hfails'
          exact .inr ha
    · rw [hfindings]
      exact Finding.nodup_report hx.nodup _ _ _
    · rw [hgraph]
      exact hx.edges
  · have hfine (pos : Position) (text : String) : ¬ Fails x.graph.flow node pos text :=
      fun h => hfails ⟨pos, text, h⟩
    have hfindings := step_of_not_fails hfine h
    -- the node has gained no reason to fail
    have hfine' (pos : Position) (text : String) : ¬ Fails flow node' pos text := by
      intro h
      exact hfine pos text (hflow ▸ h.congr hsame.point.symm hsame.state.symm)
    refine ⟨fun a => ?_, ?_, fun {i n e} hn he => ?_⟩
    · rw [hfindings, hx.subjects a, ← failing_extends hdone hextends]
      constructor
      · rintro ⟨i, hi, hrest⟩
        exact ⟨i, List.mem_append_left _ hi, hrest⟩
      · rintro ⟨i, hi, n, pos, text, hn, hfails, ha⟩
        rcases List.mem_append.1 hi with hi | hi
        · exact ⟨i, hi, n, pos, text, hn, hfails, ha⟩
        · cases List.mem_singleton.1 hi
          cases hnode'.symm.trans hn
          exact absurd hfails (hfine' pos text)
    · rw [hfindings]
      exact hx.nodup
    · obtain ⟨successors, henqueued, _⟩ := step_continues h
      rcases henqueued.edge_cases hn he with hparent | ⟨m, hm, he⟩
      · exact ⟨node', hparent ▸ hnode', hfine'⟩
      · obtain ⟨k, hk, hk'⟩ := hx.edges hm he
        obtain ⟨l, hl, hsame'⟩ := hextends.node hk
        refine ⟨l, hl, fun pos text h => ?_⟩
        exact hk' pos text (h.congr hsame'.point.symm hsame'.state.symm)

theorem Reached.accounts (h : Reached [detector] o flow done x failure?) :
    x.Accounts flow done := by
  induction h with
  | start => exact accounts_start o flow
  | @step done x id pending node y _ hx hnext hnode hstep ih =>
    have hdone (i : NodeId) (hi : i ∈ done) : ∃ m, (x.proceed pending).graph.node? i = some m :=
      Graph.lt_size_iff.1 (hx.wellFormed.done_lt i hi)
    have hproceed : (x.proceed pending).Accounts flow done := ⟨ih.subjects, ih.nodup, ih.edges⟩
    exact hproceed.step hx.flow_eq hdone hnode hstep

end Exploration

open Exploration in
/-- An exploration that looks for null dereferences has processed the nodes `done` when it ends. The
positions and messages of its findings are those of the nodes among them that are about to
dereference null, no two findings have both in common, and no edge leads on from such a node. -/
theorem explore_reports_null (o : Options) (flow : ControlFlow) :
    ∃ done x failure?, Reached [detector] o flow done x failure? ∧
      x.Ends o o.maxSteps failure? (explore [detector] o flow).status ∧
      (explore [detector] o flow).graph? = some x.graph ∧
      (∀ pos text, (∃ f ∈ (explore [detector] o flow).journal.findings,
          f.pos = pos ∧ f.message = text) ↔
        ∃ id ∈ done, ∃ n, x.graph.node? id = some n ∧ Fails flow n pos text) ∧
      ((explore [detector] o flow).journal.findings.map fun f => (f.pos, f.message)).Nodup ∧
      ∀ id ∈ done, ∀ n pos text, x.graph.node? id = some n → Fails flow n pos text →
        ∀ i m e, x.graph.node? i = some m → e ∈ m.parents → e.parent ≠ id := by
  obtain ⟨done, x, failure?, h, hgraph, hfindings, hends⟩ := explore_findings [detector] o flow
  have haccounts := h.accounts
  rw [hfindings]
  refine ⟨done, x, failure?, h, hends, hgraph, fun pos text => ?_, ?_, ?_⟩
  · have hsubject := haccounts.subjects (NullDereference.name, pos, text)
    constructor
    · rintro ⟨f, hf, rfl, rfl⟩
      -- all findings are the detector's own
      obtain ⟨id, hid, n, pos, text, hn, hfails, heq⟩ :=
        (haccounts.subjects f.subject).1 (List.mem_map_of_mem hf)
      obtain ⟨_, rfl, rfl⟩ := Prod.mk.inj heq |>.imp_right Prod.mk.inj
      exact ⟨id, hid, n, hn, hfails⟩
    · rintro ⟨id, hid, n, hn, hfails⟩
      obtain ⟨f, hf, heq⟩ :=
        List.mem_map.1 (hsubject.2 ⟨id, hid, n, pos, text, hn, hfails, rfl⟩)
      obtain ⟨_, hpos, htext⟩ := Prod.mk.inj heq |>.imp_right Prod.mk.inj
      exact ⟨f, hf, hpos, htext⟩
  · have hpairs : x.journal.findings.map Finding.subject =
        (x.journal.findings.map fun f => (f.pos, f.message)).map (NullDereference.name, ·) := by
      rw [List.map_map]
      refine List.map_congr_left fun f hf => ?_
      obtain ⟨_, _, _, _, _, _, _, heq⟩ :=
        (haccounts.subjects f.subject).1 (List.mem_map_of_mem hf)
      exact congrArg (·, f.pos, f.message) (Prod.mk.inj heq).1
    have hnodup := haccounts.nodup
    rw [hpairs] at hnodup
    exact List.Pairwise.of_map _ (fun a b hne heq => hne (congrArg _ heq)) hnodup
  · intro id _ n pos text hn hfails i m e hm he hparent
    obtain ⟨n', hn', hfine⟩ := haccounts.edges hm he
    rw [hparent] at hn'
    cases hn.symm.trans hn'
    exact hfine pos text hfails

def ControlFlow.unset : ControlFlow where
  routine := {
    name := "unset"
    entry := 0
    blocks := [
      { id := 0
        instructions := [.literal .null (.source 1 1), .assign "x" (.source 1 1),
          .invoke ⟨"Store", "isOpen", [], .boolean, false⟩ false [] (.source 2 1)]
        terminator := .branch 1 2 (.source 2 1) },
      { id := 1
        instructions := [.newObject (.ofConstructor "Entry" []) [] (.source 3 1),
          .assign "x" (.source 3 1)]
        terminator := .goto 2 },
      { id := 2
        instructions := [.read "x" (.source 4 1),
          .memberSelect "next" (.reference "Entry") (.source 4 2), .pop (.source 4 1)]
        terminator := .exit }] }
  nodup := by decide
  entry_mem := by decide
  targets_mem _ hb _ hid := Routine.missingTarget?_eq_none (by decide) hb hid

open Exploration in
theorem explore_reports_null_unset :
    ∃ done x failure? id n, Reached [detector] {} .unset done x failure? ∧ id ∈ done ∧
      x.graph.node? id = some n ∧
      Fails .unset n (.source 4 2)
        "A \"NullPointerException\" could be thrown; \"x\" is nullable here." ∧
      ∀ i m e, x.graph.node? i = some m → e ∈ m.parents → e.parent ≠ id := by
  obtain ⟨done, x, failure?, h, _, _, hreports, _, hedges⟩ := explore_reports_null {} .unset
  have hfound : ∃ f ∈ (explore [detector] {} .unset).journal.findings, f.pos = .source 4 2 ∧
      f.message = "A \"NullPointerException\" could be thrown; \"x\" is nullable here." := by
    decide +kernel
  obtain ⟨id, hid, n, hn, hfails⟩ := (hreports _ _).1 hfound
  exact ⟨done, x, failure?, id, n, h, hid, hn, hfails, hedges id hid n _ _ hn hfails⟩

end Pathwise
