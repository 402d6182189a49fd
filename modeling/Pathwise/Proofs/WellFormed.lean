import Pathwise.Proofs.Step

namespace Pathwise

theorem State.visit_equiv (s : State) (p : Point) : s.visit p ≈ s := ⟨rfl, rfl, rfl, rfl, rfl⟩

/-- Where control can go from a point, by an exception or not. -/
inductive ControlFlow.Follows (c : ControlFlow) (o : Options) : Point → Bool → Point → Prop
  | next {p i} : c.element p = .ok (.instruction i) → Follows c o p false p.next
  | jump {p t target} : c.element p = .ok (.terminator t) → target ∈ t.targets →
      Follows c o p false ⟨target, 0⟩
  | throw {p pos handlers handler} : c.element p = .ok (.terminator (.throw pos)) →
      c.handlers p.block = .ok handlers → handler ∈ handlers → Follows c o p true ⟨handler, 0⟩
  | call {p i method handlers handler} : o.exceptionalPaths →
      c.element p = .ok (.instruction i) → i.callee? = some method → method.mayThrow →
      c.handlers p.block = .ok handlers → handler ∈ handlers → Follows c o p true ⟨handler, 0⟩

theorem Throws.follows {o : Options} {flow : ControlFlow} {p : Point} {s : State}
    {supply left : Supply} {i : Instruction} {thrown : List Successor}
    (h : Throws o flow p s supply i thrown left) (hi : flow.element p = .ok (.instruction i)) :
    ∀ a ∈ thrown, flow.Follows o p a.exceptional a.point := by
  cases h with
  | quiet => exact nofun
  | thrown ho habrupt hhandlers =>
    intro a ha
    obtain ⟨handler, hmem, rfl⟩ := List.mem_map.1 ha
    obtain ⟨⟨method, hmethod, hthrow⟩, _⟩ := Instruction.abrupt?_eq_some habrupt
    exact .call ho hi hmethod hthrow hhandlers hmem

theorem Yields.follows {detectors : List Detector} {o : Options} {flow : ControlFlow} {p : Point}
    {s : State} {supply left : Supply} {element : Element} {successors : List Successor}
    (h : Yields detectors o flow p s supply element successors left)
    (helement : flow.element p = .ok element) :
    ∀ a ∈ successors, flow.Follows o p a.exceptional a.point := by
  cases h with
  | next hthrows _ _ =>
    intro a ha
    rcases List.mem_append.1 ha with ha | ha
    · exact hthrows.follows helement a ha
    · cases List.mem_singleton.1 ha
      exact .next helement
  | stopped _ hthrows _ => exact hthrows.follows helement
  | goto =>
    intro a ha
    cases List.mem_singleton.1 ha
    exact .jump helement (.head _)
  | branch =>
    intro a ha
    rcases List.mem_append.1 ha with ha | ha
    · obtain ⟨t, _, rfl⟩ := List.mem_map.1 ha
      exact .jump helement (.tail _ (.head _))
    · obtain ⟨t, _, rfl⟩ := List.mem_map.1 ha
      exact .jump helement (.head _)
  | ret | exit => exact nofun
  | throw _ hhandlers =>
    intro a ha
    obtain ⟨handler, hmem, rfl⟩ := List.mem_map.1 ha
    exact .throw helement hhandlers hmem

namespace Graph

/-- Nodes are distinct, and their edges are distinct and follow the control flow. -/
structure WellFormed (o : Options) (g : Graph) : Prop where
  distinct : ∀ {i j m n}, g.node? i = some m → g.node? j = some n → m.point = n.point →
    m.state ≈ n.state → i = j
  entry : ∃ n, g.node? 0 = some n ∧ n.point = g.flow.entry
  /-- All nodes but the first were created by an edge from an earlier one. -/
  created : ∀ {i n}, g.node? i = some n → i ≠ 0 → ∃ e, n.parents.head? = some e ∧ e.parent < i
  edges_nodup : ∀ {i n}, g.node? i = some n → n.parents.Nodup
  edges_follow : ∀ {i n e}, g.node? i = some n → e ∈ n.parents →
    ∃ m, g.node? e.parent = some m ∧ g.flow.Follows o m.point e.exceptional n.point

variable {o : Options} {g : Graph}

theorem WellFormed.find?_eq_some_iff (h : g.WellFormed o) {p : Point} {s : State} {i : NodeId} :
    g.find? p s = some i ↔ ∃ n, g.node? i = some n ∧ n.point = p ∧ n.state ≈ s := by
  constructor
  · exact node_of_find?
  · rintro ⟨n, hn, hp, hs⟩
    cases hfind : g.find? p s with
    | none => exact absurd ⟨hp, hs⟩ (find?_eq_none hfind hn)
    | some j =>
      obtain ⟨m, hm, hp', hs'⟩ := node_of_find? hfind
      rw [h.distinct hm hn (hp'.trans hp.symm) (Setoid.trans hs' (Setoid.symm hs))]

theorem node?_addParent_eq_some {i j : NodeId} {e : Edge} {n : Node}
    (h : (g.addParent i e).node? j = some n) :
    ∃ m, g.node? j = some m ∧ n.point = m.point ∧ n.state = m.state ∧
      (n = m ∨ i = j ∧ n = m.addParent e) := by
  rw [node?_addParent] at h
  split at h
  next hij =>
    obtain ⟨m, hm, rfl⟩ := Option.map_eq_some_iff.1 h
    exact ⟨m, hm, m.point_addParent e, m.state_addParent e, .inr ⟨hij, rfl⟩⟩
  next => exact ⟨n, h, rfl, rfl, .inl rfl⟩

theorem WellFormed.addParent (h : g.WellFormed o) {i : NodeId} {e : Edge} {m n : Node}
    (hn : g.node? i = some n) (hm : g.node? e.parent = some m)
    (hfollow : g.flow.Follows o m.point e.exceptional n.point) :
    (g.addParent i e).WellFormed o where
  distinct := by
    intro j k m' n' hj hk hp hs
    obtain ⟨m₀, hm₀, hmp, hms, _⟩ := node?_addParent_eq_some hj
    obtain ⟨n₀, hn₀, hnp, hns, _⟩ := node?_addParent_eq_some hk
    exact h.distinct hm₀ hn₀ (hmp ▸ hnp ▸ hp) (hms ▸ hns ▸ hs)
  entry := by
    obtain ⟨n₀, hn₀, hp⟩ := h.entry
    obtain ⟨n', hn', hextends⟩ := (g.extends_addParent i e).node hn₀
    exact ⟨n', hn', hextends.point.trans hp⟩
  created := by
    intro j n' hj hne
    obtain ⟨n₀, hn₀, _, _, rfl | ⟨_, rfl⟩⟩ := node?_addParent_eq_some hj
    · exact h.created hn₀ hne
    · obtain ⟨e₀, he₀, hlt⟩ := h.created hn₀ hne
      refine ⟨e₀, ?_, hlt⟩
      unfold Node.addParent
      split
      · exact he₀
      · rw [List.head?_append, he₀]
        rfl
  edges_nodup := by
    intro j n' hj
    obtain ⟨n₀, hn₀, _, _, rfl | ⟨_, rfl⟩⟩ := node?_addParent_eq_some hj
    · exact h.edges_nodup hn₀
    · unfold Node.addParent
      split
      · exact h.edges_nodup hn₀
      next he => exact List.nodup_append.2 ⟨h.edges_nodup hn₀, by simp, by grind⟩
  edges_follow := by
    intro j n' e' hj he'
    have hold {n₀ : Node} {e₀ : Edge} (hn₀ : g.node? j = some n₀) (he₀ : e₀ ∈ n₀.parents) :
        ∃ m', (g.addParent i e).node? e₀.parent = some m' ∧
          g.flow.Follows o m'.point e₀.exceptional n₀.point := by
      obtain ⟨m₀, hm₀, hf⟩ := h.edges_follow hn₀ he₀
      obtain ⟨m', hm', hextends⟩ := (g.extends_addParent i e).node hm₀
      exact ⟨m', hm', hextends.point ▸ hf⟩
    obtain ⟨n₀, hn₀, hp, _, rfl | ⟨rfl, rfl⟩⟩ := node?_addParent_eq_some hj
    · exact hold hn₀ he'
    · rw [hp]
      rcases Node.mem_parents_addParent.1 he' with rfl | he'
      · cases hn.symm.trans hn₀
        obtain ⟨m', hm', hextends⟩ := (g.extends_addParent i e').node hm
        exact ⟨m', hm', hextends.point ▸ hfollow⟩
      · exact hold hn₀ he'

theorem node?_insert_eq_some {p : Point} {s : State} {es : List Edge} {i : NodeId} {n : Node}
    (h : (g.insert p s es).node? i = some n) :
    g.node? i = some n ∨ i = g.size ∧ n = ⟨p, s, es⟩ := by
  rw [node?_insert] at h
  split at h
  next hi =>
    cases h
    exact .inr ⟨hi, rfl⟩
  next => exact .inl h

theorem WellFormed.insert (h : g.WellFormed o) {p : Point} {s : State} {e : Edge} {m : Node}
    (hnew : ∀ {i n}, g.node? i = some n → ¬ (n.point = p ∧ n.state ≈ s))
    (hm : g.node? e.parent = some m) (hfollow : g.flow.Follows o m.point e.exceptional p) :
    (g.insert p s [e]).WellFormed o where
  distinct := by
    intro i j m' n' hi hj hp hs
    rcases node?_insert_eq_some hi with hi | ⟨rfl, rfl⟩ <;>
      rcases node?_insert_eq_some hj with hj | ⟨rfl, rfl⟩
    · exact h.distinct hi hj hp hs
    · exact absurd ⟨hp, hs⟩ (hnew hi)
    · exact absurd ⟨hp.symm, Setoid.symm hs⟩ (hnew hj)
    · rfl
  entry := by
    obtain ⟨n, hn, hp⟩ := h.entry
    obtain ⟨n', hn', hextends⟩ := (g.extends_insert p s [e]).node hn
    exact ⟨n', hn', hextends.point.trans hp⟩
  created := by
    intro i n hi hne
    rcases node?_insert_eq_some hi with hi | ⟨rfl, rfl⟩
    · exact h.created hi hne
    · exact ⟨e, rfl, lt_size hm⟩
  edges_nodup := by
    intro i n hi
    rcases node?_insert_eq_some hi with hi | ⟨rfl, rfl⟩
    · exact h.edges_nodup hi
    · exact List.nodup_cons.2 ⟨List.not_mem_nil, .nil⟩
  edges_follow := by
    intro i n e' hi he'
    rcases node?_insert_eq_some hi with hi | ⟨rfl, rfl⟩
    · obtain ⟨m', hm', hf⟩ := h.edges_follow hi he'
      obtain ⟨m₁, hm₁, hextends⟩ := (g.extends_insert p s [e]).node hm'
      exact ⟨m₁, hm₁, hextends.point ▸ hf⟩
    · cases List.mem_singleton.1 he'
      obtain ⟨m₁, hm₁, hextends⟩ := (g.extends_insert p s [e]).node hm
      exact ⟨m₁, hm₁, hextends.point ▸ hfollow⟩

end Graph

namespace Worklist

theorem nodup_add {w : Worklist} {id : NodeId} (h : w.toList.Nodup) (hid : id ∉ w.toList) :
    (w.add id).toList.Nodup := by
  rw [toList_add]
  split
  · exact List.nodup_cons.2 ⟨hid, h⟩
  · exact List.nodup_append.2 ⟨h, by simp, by grind⟩

end Worklist

namespace Exploration

/-- Graph, worklist and counters fit together once the nodes `done` are processed. -/
structure WellFormed (o : Options) (done : List NodeId) (x : Exploration) : Prop where
  graph : x.graph.WellFormed o
  done_nodup : done.Nodup
  done_lt : ∀ id ∈ done, id < x.graph.size
  /-- The worklist holds each node that is not processed yet once, and no other. -/
  pending_nodup : x.pending.toList.Nodup
  pending_iff : ∀ id, id ∈ x.pending.toList ↔ id < x.graph.size ∧ id ∉ done
  nodes : x.statistics.nodes = x.graph.size
  steps : x.statistics.steps = done.length

variable {o : Options} {done : List NodeId}

theorem WellFormed.quiet {x y : Exploration} (h : x.WellFormed o done) (hquiet : Quiet x y) :
    y.WellFormed o done where
  graph := hquiet.graph ▸ h.graph
  done_nodup := h.done_nodup
  done_lt := hquiet.graph ▸ h.done_lt
  pending_nodup := hquiet.pending ▸ h.pending_nodup
  pending_iff := by
    intro id
    rw [hquiet.pending, hquiet.graph]
    exact h.pending_iff id
  nodes := by rw [hquiet.nodes, hquiet.graph, h.nodes]
  steps := by rw [hquiet.steps, h.steps]

theorem WellFormed.enqueue {x : Exploration} (h : x.WellFormed o done) {p : Point} {s : State}
    {e : Edge} {m : Node} (hm : x.graph.node? e.parent = some m)
    (hfollow : x.graph.flow.Follows o m.point e.exceptional p) :
    (x.enqueue o p s e).WellFormed o done := by
  rcases enqueue_cases o x p s e with ⟨i, hfind, heq⟩ | ⟨_, _, hgraph, hpending, _, hstat⟩ |
    ⟨hfind, _, heq⟩
  · -- a node with this state exists, and gets one more edge
    obtain ⟨n, hn, hp, _⟩ := Graph.node_of_find? hfind
    rw [heq]
    exact { h with
      graph := h.graph.addParent hn hm (hp ▸ hfollow)
      done_lt := fun id hid => by simpa using h.done_lt id hid
      pending_iff := fun id => by simpa using h.pending_iff id
      nodes := by simpa using h.nodes }
  · -- the state is dropped
    refine ⟨hgraph ▸ h.graph, h.done_nodup, hgraph ▸ h.done_lt, hpending ▸ h.pending_nodup, ?_, ?_,
      ?_⟩
    · intro id
      rw [hpending, hgraph]
      exact h.pending_iff id
    · rw [hstat, hgraph]
      exact h.nodes
    · rw [hstat]
      exact h.steps
  · -- a node is created; that its state counts one visit more does not make it a different one
    have hnew {i : NodeId} {n : Node} (hn : x.graph.node? i = some n) :
        ¬ (n.point = p ∧ n.state ≈ s.cleanup.visit p) := fun hsame =>
      Graph.find?_eq_none hfind hn ⟨hsame.1, Setoid.trans hsame.2 (State.visit_equiv _ p)⟩
    have hsize : x.graph.size ∉ x.pending.toList := fun hmem =>
      absurd ((h.pending_iff _).1 hmem).1 (Nat.lt_irrefl _)
    have hdone : x.graph.size ∉ done := fun hmem => absurd (h.done_lt _ hmem) (Nat.lt_irrefl _)
    rw [heq]
    refine ⟨h.graph.insert hnew hm hfollow, h.done_nodup, ?_,
      Worklist.nodup_add h.pending_nodup hsize, ?_, ?_, h.steps⟩
    · intro id hid
      simpa using Nat.lt_succ_of_lt (h.done_lt id hid)
    · intro id
      rw [Worklist.mem_toList_add, h.pending_iff, Graph.size_insert]
      grind
    · simpa using h.nodes

theorem WellFormed.proceed {x : Exploration} (h : x.WellFormed o done) {id : NodeId}
    {pending : Worklist} (hnext : x.pending.next? = some (id, pending)) :
    (x.proceed pending).WellFormed o (done ++ [id]) := by
  have hlist := Worklist.toList_of_next? hnext
  obtain ⟨hlt, hnew⟩ := (h.pending_iff id).1 (hlist ▸ List.mem_cons_self)
  have hnodup := List.nodup_cons.1 (hlist ▸ h.pending_nodup)
  refine ⟨h.graph, ?_, ?_, hnodup.2, ?_, h.nodes, ?_⟩
  · exact List.nodup_append.2 ⟨h.done_nodup, by simp, by grind⟩
  · intro j hj
    rcases List.mem_append.1 hj with hj | hj
    · exact h.done_lt j hj
    · cases List.mem_singleton.1 hj
      exact hlt
  · intro j
    have hj := h.pending_iff j
    rw [hlist, List.mem_cons] at hj
    simp only [Exploration.proceed]
    grind
  · simp [Exploration.proceed, h.steps]

/-- What each enqueued state keeps, in an exploration that grew from `x`, all of them keep. -/
theorem WellFormed.enqueued {I : Exploration → Prop} {x y : Exploration} {id : NodeId} {node : Node}
    {successors : List Successor} (h : x.WellFormed o done) (hnode : x.graph.node? id = some node)
    (hfollows : ∀ a ∈ successors, x.graph.flow.Follows o node.point a.exceptional a.point)
    (henqueued : Enqueued o id successors x y) (hx : I x)
    (hquiet : ∀ {z w}, Quiet z w → I z → I w)
    (henqueue : ∀ {z a}, a ∈ successors → z.WellFormed o done → x.graph.Extends z.graph → I z →
      I (z.enqueue o a.point a.state ⟨id, a.exceptional⟩)) :
    y.WellFormed o done ∧ I y := by
  have hall := henqueued.induction
    (I := fun z => x.graph.Extends z.graph ∧ z.WellFormed o done ∧ I z) ?_ ?_ (fun _ ha => ha)
    ⟨.refl _, h, hx⟩
  · exact hall.2
  · rintro z w hzw ⟨hextends, hz, hIz⟩
    exact ⟨hzw.graph ▸ hextends, hz.quiet hzw, hquiet hzw hIz⟩
  · rintro z a ha ⟨hextends, hz, hIz⟩
    obtain ⟨m, hm, hmn⟩ := hextends.node hnode
    refine ⟨hextends.trans (enqueue_extends o z _ _ _), hz.enqueue hm ?_,
      henqueue ha hz hextends hIz⟩
    rw [hextends.flow, hmn.point]
    exact hfollows a ha

theorem WellFormed.stepped {detectors : List Detector} {x y : Exploration} {id : NodeId}
    {node : Node} {failure? : Option Failure} (h : x.WellFormed o done)
    (hnode : x.graph.node? id = some node) (hstep : Stepped detectors o x id node y failure?) :
    y.WellFormed o done := by
  cases hstep with
  | failed hquiet _ => exact h.quiet hquiet
  | sunk _ hquiet _ => exact h.quiet hquiet
  | performed helement _ hyields henqueued =>
    exact (h.enqueued (I := fun _ => True) hnode (hyields.follows helement) henqueued trivial
      (fun _ _ => trivial) (fun _ _ _ _ => trivial)).1

end Exploration

end Pathwise
