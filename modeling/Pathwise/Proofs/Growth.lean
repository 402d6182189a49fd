import Pathwise.Exploration

namespace Pathwise

namespace Graph

@[simp] theorem flow_insert (g : Graph) (p : Point) (s : State) (es : List Edge) :
    (g.insert p s es).flow = g.flow := rfl

@[simp] theorem flow_addParent (g : Graph) (id : NodeId) (e : Edge) :
    (g.addParent id e).flow = g.flow := rfl

@[simp] theorem size_insert (g : Graph) (p : Point) (s : State) (es : List Edge) :
    (g.insert p s es).size = g.size + 1 := Array.size_push _

@[simp] theorem size_addParent (g : Graph) (id : NodeId) (e : Edge) :
    (g.addParent id e).size = g.size := Array.size_modify

theorem node?_insert (g : Graph) (p : Point) (s : State) (es : List Edge) (i : NodeId) :
    (g.insert p s es).node? i = if i = g.size then some ⟨p, s, es⟩ else g.node? i :=
  Array.getElem?_push

theorem node?_addParent (g : Graph) (id : NodeId) (e : Edge) (i : NodeId) :
    (g.addParent id e).node? i = if id = i then (g.node? i).map (·.addParent e) else g.node? i :=
  Array.getElem?_modify

theorem lt_size_iff {g : Graph} {i : NodeId} : i < g.size ↔ ∃ n, g.node? i = some n := by
  simp only [node?, Indexed.get?, size, Indexed.size, Array.getElem?_eq_some_iff]
  exact ⟨fun h => ⟨_, h, rfl⟩, fun ⟨_, h, _⟩ => h⟩

theorem lt_size {g : Graph} {i : NodeId} {n : Node} (h : g.node? i = some n) : i < g.size :=
  lt_size_iff.2 ⟨n, h⟩

theorem node_of_find? {g : Graph} {p : Point} {s : State} {i : NodeId} (h : g.find? p s = some i) :
    ∃ n, g.node? i = some n ∧ n.point = p ∧ n.state ≈ s := by
  rw [find?_eq_findIdx?, Array.findIdx?_eq_some_iff_getElem] at h
  obtain ⟨hi, hp, _⟩ := h
  rw [Bool.and_eq_true, decide_eq_true_iff, decide_eq_true_iff] at hp
  exact ⟨_, Array.getElem?_eq_getElem hi, hp⟩

theorem find?_eq_none {g : Graph} {p : Point} {s : State} (h : g.find? p s = none) {i : NodeId}
    {n : Node} (hn : g.node? i = some n) : ¬ (n.point = p ∧ n.state ≈ s) := by
  rw [find?_eq_findIdx?, Array.findIdx?_eq_none_iff] at h
  intro hsame
  have hfalse := h n (Array.mem_of_getElem? hn)
  simp [hsame] at hfalse

end Graph

namespace Node

@[simp] theorem point_addParent (n : Node) (e : Edge) : (n.addParent e).point = n.point := by
  unfold addParent
  split <;> rfl

@[simp] theorem state_addParent (n : Node) (e : Edge) : (n.addParent e).state = n.state := by
  unfold addParent
  split <;> rfl

theorem mem_parents_addParent {n : Node} {e e' : Edge} :
    e' ∈ (n.addParent e).parents ↔ e' = e ∨ e' ∈ n.parents := by
  unfold addParent
  split
  next h =>
    constructor
    · exact .inr
    · rintro (rfl | h')
      · exact h
      · exact h'
  next => simp [or_comm]

structure Extends (m n : Node) : Prop where
  point : n.point = m.point
  state : n.state = m.state
  parents : m.parents <+: n.parents

theorem Extends.refl (n : Node) : n.Extends n := ⟨rfl, rfl, List.prefix_refl _⟩

theorem Extends.trans {l m n : Node} (h : l.Extends m) (h' : m.Extends n) : l.Extends n :=
  ⟨h'.point.trans h.point, h'.state.trans h.state, h.parents.trans h'.parents⟩

theorem extends_addParent (n : Node) (e : Edge) : n.Extends (n.addParent e) := by
  refine ⟨n.point_addParent e, n.state_addParent e, ?_⟩
  unfold addParent
  split
  · exact List.prefix_refl _
  · exact List.prefix_append _ _

end Node

namespace Graph

structure Extends (g h : Graph) : Prop where
  flow : h.flow = g.flow
  node : ∀ {i m}, g.node? i = some m → ∃ n, h.node? i = some n ∧ m.Extends n

theorem Extends.refl (g : Graph) : g.Extends g := ⟨rfl, fun hm => ⟨_, hm, .refl _⟩⟩

theorem Extends.trans {f g h : Graph} (hfg : f.Extends g) (hgh : g.Extends h) : f.Extends h where
  flow := hgh.flow.trans hfg.flow
  node hm := by
    obtain ⟨n, hn, hmn⟩ := hfg.node hm
    obtain ⟨k, hk, hnk⟩ := hgh.node hn
    exact ⟨k, hk, hmn.trans hnk⟩

theorem extends_insert (g : Graph) (p : Point) (s : State) (es : List Edge) :
    g.Extends (g.insert p s es) where
  flow := rfl
  node hm := by
    refine ⟨_, ?_, .refl _⟩
    rw [node?_insert, if_neg (Nat.ne_of_lt (lt_size hm)), hm]

theorem extends_addParent (g : Graph) (i : NodeId) (e : Edge) : g.Extends (g.addParent i e) where
  flow := rfl
  node {j m} hm := by
    rw [node?_addParent, hm]
    split
    · exact ⟨_, rfl, m.extends_addParent e⟩
    · exact ⟨m, rfl, .refl m⟩

end Graph

/-- A state to go on with: where, and whether an exception led there. -/
structure Successor where
  point : Point
  state : State
  exceptional : Bool

namespace Exploration

/-- Explorations with the same nodes, pending or not. They may differ in what they report and in the
ids that are left. -/
structure Quiet (x y : Exploration) : Prop where
  graph : y.graph = x.graph
  pending : y.pending = x.pending
  steps : y.statistics.steps = x.statistics.steps
  nodes : y.statistics.nodes = x.statistics.nodes
  widened : y.statistics.widenedStates = x.statistics.widenedStates

theorem Quiet.refl (x : Exploration) : Quiet x x := ⟨rfl, rfl, rfl, rfl, rfl⟩

theorem Quiet.trans {x y z : Exploration} (h : Quiet x y) (h' : Quiet y z) : Quiet x z :=
  ⟨h'.graph.trans h.graph, h'.pending.trans h.pending, h'.steps.trans h.steps,
    h'.nodes.trans h.nodes, h'.widened.trans h.widened⟩

inductive Enqueued (o : Options) (id : NodeId) : List Successor → Exploration → Exploration → Prop
  | nil {x y} : Quiet x y → Enqueued o id [] x y
  | cons {a as x y z} : Quiet x y →
      Enqueued o id as (y.enqueue o a.point a.state ⟨id, a.exceptional⟩) z →
      Enqueued o id (a :: as) x z

variable {o : Options} {id : NodeId}

theorem Enqueued.of_quiet {as : List Successor} {x y z : Exploration} (h : Enqueued o id as y z)
    (hquiet : Quiet x y) : Enqueued o id as x z := by
  cases h with
  | nil h => exact .nil (hquiet.trans h)
  | cons h hrest => exact .cons (hquiet.trans h) hrest

theorem Enqueued.append {as bs : List Successor} {x y z : Exploration} (h : Enqueued o id as x y)
    (h' : Enqueued o id bs y z) : Enqueued o id (as ++ bs) x z := by
  induction h with
  | nil h => exact h'.of_quiet h
  | cons h _ ih => exact .cons h (ih h')

theorem Enqueued.then_quiet {as : List Successor} {x y z : Exploration}
    (h : Enqueued o id as x y) (hquiet : Quiet y z) : Enqueued o id as x z := by
  simpa using h.append (.nil hquiet)

theorem Enqueued.single (x : Exploration) (p : Point) (s : State) (exceptional : Bool) :
    Enqueued o id [⟨p, s, exceptional⟩] x (x.enqueue o p s ⟨id, exceptional⟩) :=
  .cons (.refl x) (.nil (.refl _))

theorem Enqueued.foldl {α : Type} (f : α → Successor) (as : List α) (x : Exploration) :
    Enqueued o id (as.map f) x
      (as.foldl (fun x a => x.enqueue o (f a).point (f a).state ⟨id, (f a).exceptional⟩) x) := by
  induction as generalizing x with
  | nil => exact .nil (.refl x)
  | cons a as ih => exact .cons (.refl x) (ih _)

theorem Enqueued.induction {Q : Successor → Prop} {I : Exploration → Prop}
    (hquiet : ∀ {x y}, Quiet x y → I x → I y)
    (henqueue : ∀ {x a}, Q a → I x → I (x.enqueue o a.point a.state ⟨id, a.exceptional⟩))
    {as : List Successor} {x y : Exploration} (h : Enqueued o id as x y) (hQ : ∀ a ∈ as, Q a)
    (hx : I x) : I y := by
  induction h with
  | nil h => exact hquiet h hx
  | cons h _ ih =>
    have hnext := henqueue (hQ _ (.head _)) (hquiet h hx)
    exact ih (fun b hb => hQ b (.tail _ hb)) hnext

theorem endPath_quiet (detectors : List Detector) (x : Exploration) (id : NodeId) (node : Node)
    (s : State) : Quiet x (x.endPath detectors o id node s) := by
  unfold endPath
  dsimp only
  split <;> exact ⟨rfl, rfl, rfl, rfl, rfl⟩

/-- The three things that can become of an enqueued state. -/
theorem enqueue_cases (o : Options) (x : Exploration) (p : Point) (s : State) (e : Edge) :
    (∃ i, x.graph.find? p s.cleanup = some i ∧
        x.enqueue o p s e = { x with graph := x.graph.addParent i e }) ∨
      (x.graph.find? p s.cleanup = none ∧ o.maxVisitsPerPoint ≤ s.cleanup.visitCount p ∧
        (x.enqueue o p s e).graph = x.graph ∧ (x.enqueue o p s e).pending = x.pending ∧
        (x.enqueue o p s e).supply = x.supply ∧
        (x.enqueue o p s e).statistics =
          { x.statistics with widenedStates := x.statistics.widenedStates + 1 }) ∨
      (x.graph.find? p s.cleanup = none ∧ s.cleanup.visitCount p < o.maxVisitsPerPoint ∧
        x.enqueue o p s e = { x with
          pending := x.pending.add x.graph.size
          graph := x.graph.insert p (s.cleanup.visit p) [e]
          statistics.nodes := x.statistics.nodes + 1 }) := by
  unfold enqueue
  dsimp only
  split
  next i hi => exact .inl ⟨i, hi, rfl⟩
  next hnone =>
    split
    next hmany => exact .inr (.inl ⟨hnone, hmany, rfl, rfl, rfl, rfl⟩)
    next hfew => exact .inr (.inr ⟨hnone, Nat.lt_of_not_le hfew, rfl⟩)

theorem enqueue_extends (o : Options) (x : Exploration) (p : Point) (s : State) (e : Edge) :
    x.graph.Extends (x.enqueue o p s e).graph := by
  rcases enqueue_cases o x p s e with ⟨i, _, h⟩ | ⟨_, _, h, _⟩ | ⟨_, _, h⟩
  · rw [h]
    exact Graph.extends_addParent _ i e
  · rw [h]
    exact .refl _
  · rw [h]
    exact Graph.extends_insert _ _ _ _

theorem Enqueued.extends {as : List Successor} {x y : Exploration} (h : Enqueued o id as x y) :
    x.graph.Extends y.graph := by
  induction h with
  | nil h => exact h.graph ▸ .refl _
  | cons h _ ih => exact h.graph ▸ (enqueue_extends o _ _ _ _).trans ih

end Exploration

end Pathwise
