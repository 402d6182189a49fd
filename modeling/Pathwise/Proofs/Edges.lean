import Pathwise.Proofs.Run

namespace Pathwise

theorem Journal.consult_singleton {o : Options} {hook : Hook} {react : Detector → State → Reaction}
    {d : Detector} {s t : State} {sink : Bool} {j j' : Journal}
    (h : consult o hook react [d] s j = (t, sink, j')) :
    (react d s).sink = sink ∧ t = (react d s).stateFrom s := by
  rw [consult_cons] at h
  split at h
  next hsink =>
    cases h
    exact ⟨hsink, rfl⟩
  next hsink =>
    cases h
    exact ⟨eq_false_of_ne_true hsink, rfl⟩

namespace Exploration

variable {detectors : List Detector} {o : Options}

/-- Processing the node `id` at the moment `x` leaves the state `t` at a point, by no exception. -/
inductive Continues (detectors : List Detector) (o : Options) (x : Exploration) (id : NodeId)
    (node : Node) : Element → Point → State → Prop
  | next {y : Exploration} {i s j supply t left u j'} :
      x.askBefore detectors o id node (.instruction i) = (s, false, j) →
      i.execute s supply = .ok (t, left) →
      y.askAfter detectors o id node t (.instruction i) = (u, false, j') →
      Continues detectors o x id node (.instruction i) node.point.next u
  | goto {target s j} :
      x.askBefore detectors o id node (.terminator (.goto target)) = (s, false, j) →
      Continues detectors o x id node (.terminator (.goto target)) ⟨target, 0⟩ s
  | branch {trueTarget falseTarget pos s j t condition truth states u} :
      x.askBefore detectors o id node (.terminator (.branch trueTarget falseTarget pos)) =
        (s, false, j) →
      s.pop = .ok (t, condition) → condition.assume (.truth truth) o.budget t = .ok states →
      u ∈ states →
      Continues detectors o x id node (.terminator (.branch trueTarget falseTarget pos))
        ⟨if truth then trueTarget else falseTarget, 0⟩ u

section

variable {x y z : Exploration} {id : NodeId} {node : Node} {s : State} {j : Journal}

theorem thrown_exceptional {flow : ControlFlow} {p : Point} {supply left : Supply}
    {i : Instruction} {thrown : List Successor} (h : Throws o flow p s supply i thrown left) :
    ∀ a ∈ thrown, a.exceptional := by
  cases h with
  | quiet => exact List.forall_mem_nil _
  | thrown =>
    intro a ha
    obtain ⟨_, _, rfl⟩ := List.mem_map.1 ha
    rfl

theorem instruct_continues {i : Instruction}
    (hbefore : x.askBefore detectors o id node (.instruction i) = (s, false, j))
    (h : y.instruct detectors o id node s i = (z, none)) :
    ∃ successors, Enqueued o id successors y z ∧ ∀ a ∈ successors, a.exceptional = false →
      Continues detectors o x id node (.instruction i) a.point a.state := by
  obtain ⟨mid, hmid, h⟩ := instruct_eq_none h
  obtain ⟨thrown, hthrows, henqueued⟩ := throwing_enqueued hmid
  have hthrown (a : Successor) (ha : a ∈ thrown) : a.exceptional ≠ false := by
    rw [thrown_exceptional hthrows a ha]
    decide
  obtain ⟨⟨t, left⟩, hexecute, h⟩ := attempt_eq_none.1 h
  cases hafter : mid.askAfter detectors o id node t (.instruction i) with
  | mk u rest =>
    obtain ⟨sink, j'⟩ := rest
    simp only [hafter] at h
    cases sink with
    | true =>
      cases h
      exact ⟨thrown, henqueued.then_quiet ⟨rfl, rfl, rfl, rfl, rfl⟩,
        fun a ha hregular => absurd hregular (hthrown a ha)⟩
    | false =>
      cases h
      refine ⟨_, henqueued.append ((Enqueued.single _ _ _ _).of_quiet ⟨rfl, rfl, rfl, rfl, rfl⟩),
        fun a ha hregular => ?_⟩
      rcases List.mem_append.1 ha with ha | ha
      · exact absurd hregular (hthrown a ha)
      · cases List.mem_singleton.1 ha
        exact .next hbefore hexecute hafter

theorem terminate_continues {τ : Terminator}
    (hbefore : x.askBefore detectors o id node (.terminator τ) = (s, false, j))
    (h : y.terminate detectors o id node s τ = (z, none)) :
    ∃ successors, Enqueued o id successors y z ∧ ∀ a ∈ successors, a.exceptional = false →
      Continues detectors o x id node (.terminator τ) a.point a.state := by
  obtain ⟨successors, hyields, henqueued⟩ := terminate_enqueued h
  refine ⟨successors, henqueued, ?_⟩
  generalize z.supply = left at hyields
  cases hyields with
  | goto =>
    intro a ha _
    cases List.mem_singleton.1 ha
    exact .goto hbefore
  | branch hpop hfalse htrue =>
    intro a ha _
    rcases List.mem_append.1 ha with ha | ha
    · obtain ⟨u, hu, rfl⟩ := List.mem_map.1 ha
      have hcontinues := Continues.branch hbefore hpop hfalse hu
      exact hcontinues
    · obtain ⟨u, hu, rfl⟩ := List.mem_map.1 ha
      have hcontinues := Continues.branch hbefore hpop htrue hu
      exact hcontinues
  | ret => exact List.forall_mem_nil _
  | exit => exact List.forall_mem_nil _
  | throw =>
    intro a ha hregular
    obtain ⟨_, _, rfl⟩ := List.mem_map.1 ha
    contradiction

/-- Processing a node enqueues only what continues there. -/
theorem step_continues {failure? : Option Failure}
    (h : x.step detectors o id node = (y, failure?)) :
    ∃ successors, Enqueued o id successors x y ∧ ∀ a ∈ successors, a.exceptional = false →
      ∃ element, x.graph.flow.element node.point = .ok element ∧
        Continues detectors o x id node element a.point a.state := by
  have hquiet {w : Exploration} (hw : Quiet x w) :
      ∃ successors, Enqueued o id successors x w ∧ ∀ a ∈ successors, a.exceptional = false →
        ∃ element, x.graph.flow.element node.point = .ok element ∧
          Continues detectors o x id node element a.point a.state :=
    ⟨[], .nil hw, List.forall_mem_nil _⟩
  cases step_processed h with
  | missing => exact hquiet (.refl x)
  | stopped => exact hquiet ⟨rfl, rfl, rfl, rfl, rfl⟩
  | failed => exact hquiet ⟨rfl, rfl, rfl, rfl, rfl⟩
  | @performed element s j _ helement hbefore hperform =>
    have hall : ∃ successors, Enqueued o id successors { x with journal := j } y ∧
        ∀ a ∈ successors, a.exceptional = false →
          Continues detectors o x id node element a.point a.state := by
      cases element with
      | instruction i => exact instruct_continues hbefore hperform
      | terminator τ => exact terminate_continues hbefore hperform
    obtain ⟨successors, henqueued, hcontinues⟩ := hall
    exact ⟨successors, henqueued.of_quiet ⟨rfl, rfl, rfl, rfl, rfl⟩,
      fun a ha hregular => ⟨element, helement, hcontinues a ha hregular⟩⟩

end

/-- The edges of a node are those it had and those that lead there from the node that is processed. -/
theorem Enqueued.edge_cases {x y : Exploration} {id i : NodeId} {as : List Successor} {n : Node}
    {e : Edge} (h : Enqueued o id as x y) (hn : y.graph.node? i = some n) (he : e ∈ n.parents) :
    e.parent = id ∨ ∃ m, x.graph.node? i = some m ∧ e ∈ m.parents := by
  induction h with
  | nil hquiet => exact .inr ⟨n, hquiet.graph ▸ hn, he⟩
  | @cons a as x y z hquiet _ ih =>
    rcases ih hn with heq | ⟨m, hm, he⟩
    · exact .inl heq
    · rcases enqueue_cases o y a.point a.state ⟨id, a.exceptional⟩ with
        ⟨k, _, heq⟩ | ⟨_, _, heq, _⟩ | ⟨_, _, heq⟩
      · rw [heq] at hm
        obtain ⟨m', hm', _, _, rfl | ⟨_, rfl⟩⟩ := Graph.node?_addParent_eq_some hm
        · exact .inr ⟨m, hquiet.graph ▸ hm', he⟩
        · rcases Node.mem_parents_addParent.1 he with rfl | he
          · exact .inl rfl
          · exact .inr ⟨m', hquiet.graph ▸ hm', he⟩
      · exact .inr ⟨m, hquiet.graph ▸ heq ▸ hm, he⟩
      · rw [heq] at hm
        rcases Graph.node?_insert_eq_some hm with hm | ⟨_, rfl⟩
        · exact .inr ⟨m, hquiet.graph ▸ hm, he⟩
        · exact .inl (congrArg Edge.parent (List.mem_singleton.1 he))

/-- A regular edge of a graph was taken when its parent was processed. -/
inductive Taken (detectors : List Detector) (o : Options) (g : Graph) (e : Edge) (n : Node) : Prop
  | intro {x : Exploration} {m element t} : x.graph.Extends g → x.graph.node? e.parent = some m →
      g.flow.element m.point = .ok element →
      Continues detectors o x e.parent m element n.point t → n.state ≈ t.cleanup →
      Taken detectors o g e n

theorem Taken.extends {g g' : Graph} {e : Edge} {m n : Node} (h : Taken detectors o g e m)
    (hg : g.Extends g') (hpoint : n.point = m.point) (hstate : n.state = m.state) :
    Taken detectors o g' e n := by
  obtain ⟨hx, hm, helement, hcontinues, ht⟩ := h
  exact ⟨hx.trans hg, hm, hg.flow ▸ helement, hpoint ▸ hcontinues, hstate ▸ ht⟩

def AllTaken (detectors : List Detector) (o : Options) (g : Graph) : Prop :=
  ∀ ⦃i n e⦄, g.node? i = some n → e ∈ n.parents → e.exceptional = false → Taken detectors o g e n

theorem allTaken_enqueue {x z : Exploration} {id : NodeId} {node : Node} {a : Successor}
    (hz : AllTaken detectors o z.graph) (hx : x.graph.Extends z.graph)
    (hnode : x.graph.node? id = some node)
    (ha : a.exceptional = false → ∃ element, x.graph.flow.element node.point = .ok element ∧
      Continues detectors o x id node element a.point a.state) :
    AllTaken detectors o (z.enqueue o a.point a.state ⟨id, a.exceptional⟩).graph := by
  have hextends := enqueue_extends o z a.point a.state ⟨id, a.exceptional⟩
  intro i n e hn he hregular
  -- the new edge leads to a node with the state that was enqueued
  have hnew (he : e = ⟨id, a.exceptional⟩) (hpoint : n.point = a.point)
      (hstate : n.state ≈ a.state.cleanup) :
      Taken detectors o (z.enqueue o a.point a.state ⟨id, a.exceptional⟩).graph e n := by
    subst he
    obtain ⟨element, helement, hcontinues⟩ := ha hregular
    have hgrown := hx.trans hextends
    exact ⟨hgrown, hnode, hgrown.flow ▸ helement, hpoint ▸ hcontinues, hstate⟩
  rcases enqueue_cases o z a.point a.state ⟨id, a.exceptional⟩ with
    ⟨k, hfind, heq⟩ | ⟨_, _, heq, _⟩ | ⟨_, _, heq⟩
  · rw [heq] at hn
    obtain ⟨m, hm, hpoint, hstate, rfl | ⟨rfl, rfl⟩⟩ := Graph.node?_addParent_eq_some hn
    · exact (hz hm he hregular).extends hextends rfl rfl
    · rcases Node.mem_parents_addParent.1 he with he | he
      · obtain ⟨m', hm', hp, hs⟩ := Graph.node_of_find? hfind
        cases hm.symm.trans hm'
        exact hnew he (hpoint.trans hp) (hstate ▸ hs)
      · exact (hz hm he hregular).extends hextends hpoint hstate
  · exact (hz (heq ▸ hn) he hregular).extends hextends rfl rfl
  · rw [heq] at hn
    rcases Graph.node?_insert_eq_some hn with hn | ⟨_, rfl⟩
    · exact (hz hn he hregular).extends hextends rfl rfl
    · exact hnew (List.mem_singleton.1 he) rfl (State.visit_equiv _ _)

theorem Reached.allTaken {flow : ControlFlow} {done : List NodeId} {x : Exploration}
    {failure? : Option Failure} (h : Reached detectors o flow done x failure?) :
    AllTaken detectors o x.graph := by
  induction h with
  | start =>
    intro i n e hn he
    rw [(start_node? hn).2] at he
    contradiction
  | @step _ x _ pending node _ _ _ _ hnode hstep ih =>
    obtain ⟨successors, henqueued, hcontinues⟩ := step_continues hstep
    refine (henqueued.induction
      (I := fun z => (x.proceed pending).graph.Extends z.graph ∧ AllTaken detectors o z.graph)
      ?_ ?_ hcontinues ⟨.refl _, ih⟩).2
    · rintro z w hquiet ⟨hextends, hz⟩
      exact ⟨hquiet.graph ▸ hextends, hquiet.graph ▸ hz⟩
    · rintro z a ha ⟨hextends, hz⟩
      exact ⟨hextends.trans (enqueue_extends o z _ _ _), allTaken_enqueue hz hextends hnode ha⟩

end Exploration

end Pathwise
