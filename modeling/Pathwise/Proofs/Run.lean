import Pathwise.Proofs.WellFormed

namespace Pathwise

theorem State.bindFresh_eq (s : State) (supply : Supply) (p : Parameter) :
    ∃ v, (v = .simple supply.next ∨ v = .boolean supply.next) ∧
      bindFresh (s, supply) p = (s.put p.name v, ⟨supply.next + 1⟩) := by
  by_cases hp : p.type = .boxedBoolean
  · exact ⟨_, .inr rfl, by rw [bindFresh, if_pos hp]; rfl⟩
  · exact ⟨_, .inl rfl, by rw [bindFresh, if_neg hp]; rfl⟩

theorem State.initial_induction {I : List Parameter → State → Supply → Prop} {supply : Supply}
    (hempty : I [] .empty supply)
    (hput : ∀ {ps s left} p v, v = .simple left.next ∨ v = .boolean left.next → I ps s left →
      I (ps ++ [p]) (s.put p.name v) ⟨left.next + 1⟩)
    (parameters : List Parameter) :
    I parameters (initial parameters supply).1 (initial parameters supply).2 := by
  -- the fold starts where the parameters `ps` are bound already
  have hfold (qs : List Parameter) : ∀ {ps s left}, I ps s left →
      I (ps ++ qs) (qs.foldl bindFresh (s, left)).1 (qs.foldl bindFresh (s, left)).2 := by
    induction qs with
    | nil =>
      intro ps s left h
      rw [List.append_nil]
      exact h
    | cons q qs ih =>
      intro ps s left h
      obtain ⟨v, hv, hbind⟩ := bindFresh_eq s left q
      rw [List.append_cons, List.foldl_cons, hbind]
      exact ih (hput q v hv h)
  exact hfold parameters hempty

namespace Exploration

/-- A moment of the exploration of `flow`: the nodes `done` are processed, and the last of them may
have failed. -/
inductive Reached (detectors : List Detector) (o : Options) (flow : ControlFlow) :
    List NodeId → Exploration → Option Failure → Prop
  | start : Reached detectors o flow [] (start o flow) none
  | step {done x id pending node y failure?} : Reached detectors o flow done x none →
      x.pending.next? = some (id, pending) → x.graph.node? id = some node →
      (x.proceed pending).step detectors o id node = (y, failure?) →
      Reached detectors o flow (done ++ [id]) y failure?

/-- The ways in which an exploration of at most `limit` steps ends. -/
inductive Ends (o : Options) (limit : Nat) (x : Exploration) : Option Failure → Status → Prop
  | complete : x.pending.toList = [] → Ends o limit x none .complete
  | exhausted : x.pending.toList ≠ [] → x.statistics.steps = limit →
      Ends o limit x none (.incomplete (.stepsExceeded o.maxSteps))
  | failed (f : Failure) : Ends o limit x (some f) (.ofFailure f)

theorem Ends.of_complete {o : Options} {limit : Nat} {x : Exploration} {failure? : Option Failure}
    (h : x.Ends o limit failure? .complete) : failure? = none ∧ x.pending.toList = [] := by
  generalize hstatus : Status.complete = status at h
  cases h with
  | complete hempty => exact ⟨rfl, hempty⟩
  | exhausted => contradiction
  | failed f =>
    unfold Status.ofFailure at hstatus
    split at hstatus <;> contradiction

variable {detectors : List Detector} {o : Options} {flow : ControlFlow}

theorem start_node? {i : NodeId} {n : Node} (h : (start o flow).graph.node? i = some n) :
    i = 0 ∧ n = ⟨flow.entry, (State.initial flow.parameters {}).1.visit flow.entry, []⟩ := by
  rcases Graph.node?_insert_eq_some h with h | h
  · cases h
  · exact h

theorem start_wellFormed (o : Options) (flow : ControlFlow) : (start o flow).WellFormed o [] := by
  have hpending : (start o flow).pending.toList = [0] := by
    simp only [start, Worklist.toList_add]
    split <;> rfl
  refine ⟨⟨?_, ?_, ?_, ?_, ?_⟩, .nil, nofun, ?_, ?_, rfl, rfl⟩
  · intro i j m n hi hj _ _
    rw [(start_node? hi).1, (start_node? hj).1]
  · exact ⟨_, rfl, rfl⟩
  · intro i n hi hne
    exact absurd (start_node? hi).1 hne
  · intro i n hi
    rw [(start_node? hi).2]
    exact .nil
  · intro i n e hi he
    rw [(start_node? hi).2] at he
    cases he
  · rw [hpending]
    exact List.nodup_cons.2 ⟨List.not_mem_nil, .nil⟩
  · intro id
    have hsize : (start o flow).graph.size = 1 := rfl
    rw [hpending, hsize]
    simp

theorem Reached.wellFormed {done : List NodeId} {x : Exploration} {failure? : Option Failure}
    (h : Reached detectors o flow done x failure?) : x.WellFormed o done := by
  induction h with
  | start => exact start_wellFormed o flow
  | step _ hnext hnode hstep ih =>
    exact (ih.proceed hnext).stepped hnode (step_stepped hstep)

theorem Reached.extends {done : List NodeId} {x : Exploration} {failure? : Option Failure}
    (h : Reached detectors o flow done x failure?) :
    (Exploration.start o flow).graph.Extends x.graph := by
  induction h with
  | start => exact .refl _
  | step _ _ _ hstep ih => exact ih.trans (step_stepped hstep).extends

theorem Reached.flow_eq {done : List NodeId} {x : Exploration} {failure? : Option Failure}
    (h : Reached detectors o flow done x failure?) : x.graph.flow = flow := h.extends.flow

/-- A property of points and states that the entry has and successors inherit, all nodes have. -/
theorem Reached.forall_node {J : Point → State → Prop}
    (hstart : J flow.entry (State.initial flow.parameters {}).1)
    (hkeep : ∀ {p s}, J p s → J p (s.cleanup) ∧ J p (s.visit p))
    (hsuccessors : ∀ {p s t supply element successors left}, J p s →
      flow.element p = .ok element → Adjusted detectors s t →
      Yields detectors o flow p t supply element successors left →
      ∀ a ∈ successors, J a.point a.state)
    {done : List NodeId} {x : Exploration} {failure? : Option Failure}
    (h : Reached detectors o flow done x failure?) :
    ∀ id n, x.graph.node? id = some n → J n.point n.state := by
  induction h with
  | start =>
    intro id n hn
    rw [(start_node? hn).2]
    exact (hkeep hstart).2
  | @step _ x _ pending node _ _ hx _ hnode hstep ih =>
    cases step_stepped hstep with
    | failed hquiet _ => rwa [hquiet.graph]
    | sunk _ hquiet _ => rwa [hquiet.graph]
    | performed helement hadjusted hyields henqueued =>
      have hflow : (x.proceed pending).graph.flow = flow := hx.flow_eq
      rw [hflow] at helement hyields
      refine henqueued.induction (Q := fun a => J a.point a.state)
        (I := fun z => ∀ id n, z.graph.node? id = some n → J n.point n.state)
        (fun hquiet hz => hquiet.graph ▸ hz) (fun {z a} ha hz id n hn => ?_)
        (hsuccessors (ih _ _ hnode) helement hadjusted hyields) ih
      rcases enqueue_cases o z a.point a.state ⟨_, a.exceptional⟩ with
        ⟨i, _, heq⟩ | ⟨_, _, heq, _⟩ | ⟨_, _, heq⟩
      · rw [heq] at hn
        obtain ⟨m, hm, hpoint, hstate, _⟩ := Graph.node?_addParent_eq_some hn
        rw [hpoint, hstate]
        exact hz id m hm
      · exact hz id n (heq ▸ hn)
      · rw [heq] at hn
        rcases Graph.node?_insert_eq_some hn with hn | ⟨_, rfl⟩
        · exact hz id n hn
        · exact (hkeep (hkeep ha).1).2

/-- The moment after so many steps, with the nodes that are processed by then. -/
def moment? (detectors : List Detector) (o : Options) (flow : ControlFlow) :
    Nat → Option (List NodeId × Exploration)
  | 0 => some ([], start o flow)
  | k + 1 => do
    let (done, x) ← moment? detectors o flow k
    let (id, pending) ← x.pending.next?
    let node ← x.graph.node? id
    match (x.proceed pending).step detectors o id node with
    | (y, none) => some (done ++ [id], y)
    | (_, some _) => none

theorem reached_of_moment? {k : Nat} {done : List NodeId} {x : Exploration}
    (h : moment? detectors o flow k = some (done, x)) : Reached detectors o flow done x none := by
  induction k generalizing done x with
  | zero =>
    cases h
    exact .start
  | succ k ih =>
    obtain ⟨⟨done', x'⟩, hmoment, h⟩ := Option.bind_eq_some_iff.1 h
    obtain ⟨⟨id, pending⟩, hnext, h⟩ := Option.bind_eq_some_iff.1 h
    obtain ⟨node, hnode, h⟩ := Option.bind_eq_some_iff.1 h
    split at h
    next hstep =>
      cases h
      exact (ih hmoment).step hnext hnode hstep
    next => cases h

theorem Reached.moment?_eq {done : List NodeId} {x : Exploration} {failure? : Option Failure}
    (h : Reached detectors o flow done x failure?) (hfailure : failure? = none) :
    moment? detectors o flow done.length = some (done, x) := by
  induction h with
  | start => rfl
  | step _ hnext hnode hstep ih =>
    subst hfailure
    rw [List.length_append, List.length_singleton, moment?, ih rfl]
    simp only [Option.bind_eq_bind, Option.bind_some, hnext, hnode, hstep]

theorem WellFormed.steps_eq_nodes {done : List NodeId} {x : Exploration}
    (h : x.WellFormed o done) (hempty : x.pending.toList = []) :
    x.statistics.steps = x.statistics.nodes := by
  have hmem (id : NodeId) : id ∈ done ↔ id ∈ List.range x.graph.size := by
    have hpending := h.pending_iff id
    rw [hempty] at hpending
    have hlt := h.done_lt id
    grind
  have hperm := (List.perm_ext_iff_of_nodup h.done_nodup List.nodup_range).2 hmem
  rw [h.steps, h.nodes, hperm.length_eq, List.length_range]

section

variable {x y : Exploration} {id : NodeId} {pending : Worklist} {node : Node}

theorem run_of_none (hnext : x.pending.next? = none) (left : Nat) :
    x.run detectors o left = (x, .complete) := by
  rw [run.eq_def]
  simp only [hnext]

theorem run_of_missing (hnext : x.pending.next? = some (id, pending))
    (hnode : x.graph.node? id = none) (left : Nat) :
    x.run detectors o (left + 1) = { x with pending }.run detectors o left := by
  rw [run]
  simp only [hnext, hnode]

theorem run_of_step (hnext : x.pending.next? = some (id, pending))
    (hnode : x.graph.node? id = some node)
    (hstep : (x.proceed pending).step detectors o id node = (y, none)) (left : Nat) :
    x.run detectors o (left + 1) = y.run detectors o left := by
  rw [run]
  simp only [hnext, hnode, hstep]

theorem run_of_failure {f : Failure} (hnext : x.pending.next? = some (id, pending))
    (hnode : x.graph.node? id = some node)
    (hstep : (x.proceed pending).step detectors o id node = (y, some f)) (left : Nat) :
    x.run detectors o (left + 1) = (y.recordFailure node f, .ofFailure f) := by
  rw [run]
  simp only [hnext, hnode, hstep]

theorem WellFormed.node_of_next? {done : List NodeId} (h : x.WellFormed o done)
    (hnext : x.pending.next? = some (id, pending)) : ∃ node, x.graph.node? id = some node := by
  have hmem : id ∈ x.pending.toList := Worklist.toList_of_next? hnext ▸ List.mem_cons_self
  exact Graph.lt_size_iff.1 ((h.pending_iff id).1 hmem).1

end

theorem findings_recordFailure (x : Exploration) (node : Node) (f : Failure) :
    (x.recordFailure node f).journal.findings = x.journal.findings := by
  unfold recordFailure
  dsimp only
  split <;> rfl

inductive Ran (detectors : List Detector) (o : Options) :
    Nat → Exploration → Exploration → Status → Prop
  | complete {left x} : x.pending.next? = none → Ran detectors o left x x .complete
  | exhausted {x id pending} (message : String) (fields : List (String × String)) :
      x.pending.next? = some (id, pending) →
      Ran detectors o 0 x { x with pending, journal := x.journal.write .warning message fields }
        (.incomplete (.stepsExceeded o.maxSteps))
  | missing {left x id pending y status} : x.pending.next? = some (id, pending) →
      x.graph.node? id = none → Ran detectors o left { x with pending } y status →
      Ran detectors o (left + 1) x y status
  | step {left x id pending node y z status} : x.pending.next? = some (id, pending) →
      x.graph.node? id = some node → (x.proceed pending).step detectors o id node = (y, none) →
      Ran detectors o left y z status → Ran detectors o (left + 1) x z status
  | failed {left x id pending node y f} : x.pending.next? = some (id, pending) →
      x.graph.node? id = some node → (x.proceed pending).step detectors o id node = (y, some f) →
      Ran detectors o (left + 1) x (y.recordFailure node f) (.ofFailure f)

theorem run_ran (detectors : List Detector) (o : Options) (left : Nat) (x : Exploration) :
    Ran detectors o left x (x.run detectors o left).1 (x.run detectors o left).2 := by
  induction left generalizing x with
  | zero =>
    rw [run]
    split
    next hnext => exact .complete hnext
    next hnext => exact .exhausted _ _ hnext
  | succ left ih =>
    cases hnext : x.pending.next? with
    | none =>
      rw [run_of_none hnext]
      exact .complete hnext
    | some next =>
      cases hnode : x.graph.node? next.1 with
      | none =>
        rw [run_of_missing hnext hnode]
        exact .missing hnext hnode (ih _)
      | some node =>
        cases hstep : (x.proceed next.2).step detectors o next.1 node with
        | mk y failure? =>
          cases failure? with
          | none =>
            rw [run_of_step hnext hnode hstep]
            exact .step hnext hnode hstep (ih y)
          | some f =>
            rw [run_of_failure hnext hnode hstep]
            exact .failed hnext hnode hstep

/-- A run goes on from one moment to another, ends there and reports what was found by then. -/
theorem Reached.run_findings {done : List NodeId} {x : Exploration}
    (h : Reached detectors o flow done x none) (left : Nat) :
    ∃ done' y failure?, Reached detectors o flow done' y failure? ∧
      (x.run detectors o left).1.graph = y.graph ∧
      (x.run detectors o left).1.statistics = y.statistics ∧
      y.Ends o (done.length + left) failure? (x.run detectors o left).2 ∧
      (x.run detectors o left).1.journal.findings = y.journal.findings := by
  have hran := run_ran detectors o left x
  generalize (x.run detectors o left).1 = z at hran ⊢
  generalize (x.run detectors o left).2 = status at hran ⊢
  induction hran generalizing done with
  | complete hnext =>
    exact ⟨done, _, none, h, rfl, rfl, .complete (Worklist.next?_eq_none_iff.1 hnext), rfl⟩
  | exhausted _ _ hnext =>
    refine ⟨done, _, none, h, rfl, rfl, .exhausted ?_ h.wellFormed.steps, rfl⟩
    rw [Worklist.toList_of_next? hnext]
    exact List.cons_ne_nil _ _
  | missing hnext hnode =>
    obtain ⟨node, hnode'⟩ := h.wellFormed.node_of_next? hnext
    cases hnode.symm.trans hnode'
  | step hnext hnode hstep _ ih =>
    obtain ⟨done', y, failure?, hy, hgraph, hstatistics, hends, hfindings⟩ :=
      ih (h.step hnext hnode hstep)
    rw [List.length_append, List.length_singleton, Nat.add_assoc, Nat.add_comm 1] at hends
    exact ⟨done', y, failure?, hy, hgraph, hstatistics, hends, hfindings⟩
  | failed hnext hnode hstep =>
    exact ⟨_, _, _, h.step hnext hnode hstep, rfl, rfl, .failed _, findings_recordFailure _ _ _⟩

theorem Reached.run {done : List NodeId} {x : Exploration}
    (h : Reached detectors o flow done x none) (left : Nat) :
    ∃ done' y failure?, Reached detectors o flow done' y failure? ∧
      (x.run detectors o left).1.graph = y.graph ∧
      (x.run detectors o left).1.statistics = y.statistics ∧
      y.Ends o (done.length + left) failure? (x.run detectors o left).2 := by
  obtain ⟨done', y, failure?, hy, hgraph, hstatistics, hends, _⟩ := h.run_findings left
  exact ⟨done', y, failure?, hy, hgraph, hstatistics, hends⟩

end Exploration

open Exploration in
/-- What an exploration reports is what its last moment has. -/
theorem explore_reached (detectors : List Detector) (o : Options) (flow : ControlFlow) :
    ∃ done x failure?, Reached detectors o flow done x failure? ∧
      (explore detectors o flow).graph? = some x.graph ∧
      (explore detectors o flow).statistics = x.statistics ∧
      x.Ends o o.maxSteps failure? (explore detectors o flow).status := by
  have hstart : Reached detectors o flow [] (start o flow) none := .start
  obtain ⟨done, x, failure?, h, hgraph, hstatistics, hends⟩ := hstart.run o.maxSteps
  rw [List.length_nil, Nat.zero_add] at hends
  exact ⟨done, x, failure?, h, congrArg some hgraph, hstatistics, hends⟩

open Exploration in
theorem explore_findings (detectors : List Detector) (o : Options) (flow : ControlFlow) :
    ∃ done x failure?, Reached detectors o flow done x failure? ∧
      (explore detectors o flow).graph? = some x.graph ∧
      (explore detectors o flow).journal.findings = x.journal.findings ∧
      x.Ends o o.maxSteps failure? (explore detectors o flow).status := by
  have hstart : Reached detectors o flow [] (start o flow) none := .start
  obtain ⟨done, x, failure?, h, hgraph, _, hends, hfindings⟩ := hstart.run_findings o.maxSteps
  rw [List.length_nil, Nat.zero_add] at hends
  exact ⟨done, x, failure?, h, congrArg some hgraph, hfindings, hends⟩

open Exploration in
/-- The graph is well formed at every moment of an exploration, and the one that is reported is that
of the last moment. -/
theorem explore_wellFormed (detectors : List Detector) (o : Options) (flow : ControlFlow) :
    (∀ done x failure?, Reached detectors o flow done x failure? →
      x.graph.flow = flow ∧ x.WellFormed o done ∧
        ∀ p s i, x.graph.find? p s = some i ↔
          ∃ n, x.graph.node? i = some n ∧ n.point = p ∧ n.state ≈ s) ∧
      ∃ done x failure?, Reached detectors o flow done x failure? ∧
        (explore detectors o flow).graph? = some x.graph ∧
        (explore detectors o flow).statistics = x.statistics ∧
        x.Ends o o.maxSteps failure? (explore detectors o flow).status ∧
        ((explore detectors o flow).status = .complete →
          x.statistics.steps = x.statistics.nodes) := by
  constructor
  · intro done x failure? h
    exact ⟨h.flow_eq, h.wellFormed, fun p s i => h.wellFormed.graph.find?_eq_some_iff⟩
  · obtain ⟨done, x, failure?, h, hgraph, hstatistics, hends⟩ := explore_reached detectors o flow
    refine ⟨done, x, failure?, h, hgraph, hstatistics, hends, fun hcomplete => ?_⟩
    exact h.wellFormed.steps_eq_nodes (Ends.of_complete (hcomplete ▸ hends)).2

def ControlFlow.spin : ControlFlow where
  routine := {
    name := "spin"
    entry := 1
    blocks := [
      { id := 1
        instructions := [.invoke ⟨"Lock", "await", [], .void, true⟩ false [] .unknown]
        terminator := .goto 1
        handlers := [2, 2] },
      { id := 2, instructions := [.pop .unknown], terminator := .exit }] }
  nodup := by decide
  entry_mem := by decide
  targets_mem _ hb _ hid := Routine.missingTarget?_eq_none (by decide) hb hid

open Exploration in
theorem explore_wellFormed_spin :
    ∃ done x, Reached [] {} .spin done x none ∧ x.WellFormed {} done ∧ x.pending.toList = [] ∧
      x.statistics.steps = 4 ∧ x.statistics.nodes = 4 := by
  obtain ⟨hmoments, done, x, failure?, h, _, hstatistics, hends, _⟩ :=
    explore_wellFormed [] {} .spin
  have hcomplete : (explore [] {} .spin).status = .complete := by decide +kernel
  have hcounts : (explore [] {} .spin).statistics.steps = 4 ∧
      (explore [] {} .spin).statistics.nodes = 4 := by decide +kernel
  obtain ⟨rfl, hempty⟩ := Ends.of_complete (hcomplete ▸ hends)
  exact ⟨done, x, h, (hmoments done x none h).2.1, hempty, hstatistics ▸ hcounts⟩

end Pathwise
