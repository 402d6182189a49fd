import Mathlib.Algebra.Order.BigOperators.Group.List
import Mathlib.Algebra.Order.Group.Nat
import Mathlib.Data.List.Chain
import Mathlib.Data.List.Perm.Subperm
import Pathwise.Proofs.Faults
import Pathwise.Proofs.Tracing

namespace Pathwise

namespace Flow

/-- The edge from a node back to a parent is of the kind that is followed, and the query did not get
satisfied on it. -/
def Passes (g : Graph) (q : Query) (exceptions : Bool) (id parent : NodeId) : Prop :=
  ∃ m ∈ g.node? id, ∃ n ∈ g.node? parent,
    ((q.satisfied? m.state).isSome → (q.satisfied? n.state).isSome) ∧
      ∃ e ∈ m.parents, e.parent = parent ∧ (exceptions || !e.exceptional)

instance (g : Graph) (q : Query) (exceptions : Bool) (id parent : NodeId) :
    Decidable (Passes g q exceptions id parent) :=
  inferInstanceAs (Decidable (∃ m ∈ g.node? id, ∃ n ∈ g.node? parent,
    ((q.satisfied? m.state).isSome → (q.satisfied? n.state).isSome) ∧
      ∃ e ∈ m.parents, e.parent = parent ∧ (exceptions || !e.exceptional)))

/-- A chain of such edges from one node back to another, that comes to no node twice. -/
structure LeadsBack (g : Graph) (q : Query) (exceptions : Bool) (start origin : NodeId)
    (ids : List NodeId) : Prop where
  head : ids.head? = some start
  last : ids.getLast? = some origin
  nodup : ids.Nodup
  passes : ids.IsChain (Passes g q exceptions)

instance (g : Graph) (q : Query) (exceptions : Bool) (start origin : NodeId) (ids : List NodeId) :
    Decidable (LeadsBack g q exceptions start origin ids) :=
  decidable_of_iff (ids.head? = some start ∧ ids.getLast? = some origin ∧ ids.Nodup ∧
      ids.IsChain (Passes g q exceptions))
    ⟨fun ⟨head, last, nodup, passes⟩ => ⟨head, last, nodup, passes⟩,
      fun h => ⟨h.head, h.last, h.nodup, h.passes⟩⟩

def Query.tracks (q : Query) (var : String) : Bool :=
  q.symbols.isEmpty || q.symbols.contains var

/-- The variable that `var` was assigned from is tracked in its place, unless all of them are. -/
def Query.handOver (q : Query) (tracks : String → Bool) (var : String) (source? : Option String)
    (name : String) : Bool :=
  q.symbols.isEmpty || source? == some name || (tracks name && name != var)

def assigned? (g : Graph) (q : Query) (tracks : String → Bool) (child parent : Node) :
    Option (String × Location) :=
  match g.flow.element parent.point with
  | .ok (.instruction (.assign var pos)) =>
    if tracks var && child.state.binds var q.value && !parent.state.binds var q.value then
      some (var, ⟨pos, assignedMessage var (q.satisfied? child.state), some parent.point⟩)
    else none
  | _ => none

/-- What a chain of nodes explains, its origin first. -/
def explanation (g : Graph) (q : Query) : (String → Bool) → List Node → Flow
  | tracks, child :: parent :: nodes =>
    match assigned? g q tracks child parent with
    | some (var, location) =>
      let source? := g.flow.operandVariable? parent.point 0
      explanation g q (q.handOver tracks var source?) (parent :: nodes) ++ [location]
    | none => explanation g q tracks (parent :: nodes)
  | tracks, _ => origin g q tracks

namespace Search

variable {g : Graph} {q : Query} {o : Options} {exceptions : Bool} {s t : Search} {c : Chain}
  {child parent : Node} {id : NodeId} {element : Element}

theorem explanation_singleton (c : Chain) (n : Node) (locations : Flow) :
    explanation g q c.tracks [n] ++ locations = flowOf g q c locations := rfl

def Agrees (q : Query) (c : Chain) : Prop := c.tracked?.isNone = q.symbols.isEmpty

theorem extend_of_assigned (helement : g.flow.element parent.point = .ok element) {var : String}
    {location : Location} (h : assigned? g q c.tracks child parent = some (var, location)) :
    extend g q c child parent id element =
      ⟨id, location :: c.locations, id :: c.visited, c.tracked?.map fun vars =>
        (g.flow.operandVariable? parent.point 0).toList ++ vars.filter (· != var)⟩ := by
  simp only [assigned?, helement] at h
  split at h
  next var' pos heq =>
    cases heq
    split at h
    next hassigned =>
      cases h
      simp only [extend, hassigned, if_true]
    next => cases h
  next => cases h

theorem extend_of_not_assigned (helement : g.flow.element parent.point = .ok element)
    (h : assigned? g q c.tracks child parent = none) :
    extend g q c child parent id element = { c with node := id, visited := id :: c.visited } := by
  simp only [assigned?, helement] at h
  unfold extend
  split
  next var pos =>
    dsimp only at h ⊢
    split at h
    next => cases h
    next hnot => rw [if_neg hnot]
  next => rfl

theorem Agrees.extend (h : Agrees q c) :
    Agrees q (extend g q c child parent id element) := by
  unfold Search.extend
  dsimp only
  split
  · split
    · exact (Option.isNone_map ..).trans h
    · exact h
  · exact h

theorem tracks_handOver (h : Agrees q c) (var : String) (source? : Option String) (id : NodeId)
    (locations : Flow) (visited : List NodeId) :
    Chain.tracks ⟨id, locations, visited, c.tracked?.map fun vars =>
      source?.toList ++ vars.filter (· != var)⟩ = q.handOver c.tracks var source? := by
  funext name
  unfold Agrees at h
  unfold Chain.tracks Query.handOver
  cases htracked : c.tracked? with
  | none =>
    rw [htracked] at h
    simp [← h]
  | some vars =>
    rw [htracked] at h
    cases source? with
    | none => simp [← h, bne, beq_eq_decide]
    | some source => simp [← h, bne, beq_eq_decide, eq_comm (a := source)]

/-- To go on along a chain is to tell the rest of what it explains. -/
theorem explanation_extend (helement : g.flow.element parent.point = .ok element)
    (h : Agrees q c) (id : NodeId) (nodes : List Node) :
    explanation g q (extend g q c child parent id element).tracks (parent :: nodes) ++
        (extend g q c child parent id element).locations =
      explanation g q c.tracks (child :: parent :: nodes) ++ c.locations := by
  rw [explanation]
  cases hassigned : assigned? g q c.tracks child parent with
  | none =>
    rw [extend_of_not_assigned helement hassigned]
    rfl
  | some a =>
    obtain ⟨var, location⟩ := a
    rw [extend_of_assigned helement hassigned, tracks_handOver h]
    simp only [List.append_assoc, List.singleton_append]

/-- The chain can be continued by the nodes `ids`, to the node `origin`, and tells `flow` then. -/
structure Continues (g : Graph) (q : Query) (exceptions : Bool) (origin : NodeId) (c : Chain)
    (ids : List NodeId) (flow : Flow) : Prop where
  agrees : Agrees q c
  leads : LeadsBack g q exceptions c.node origin (c.node :: ids)
  fresh : ∀ i ∈ ids, i ∉ c.visited
  flow : explanation g q c.tracks ((c.node :: ids).filterMap g.node?) ++ c.locations = flow

def Located (g : Graph) : Prop :=
  ∀ ⦃i n⦄, g.node? i = some n → ∃ element, g.flow.element n.point = .ok element

variable {origin : NodeId} {ids : List NodeId} {flow : Flow}

theorem Continues.exists_edge {i : NodeId}
    (h : Continues g q exceptions origin c (i :: ids) flow) (hchild : g.node? c.node = some child) :
    ∃ e, e ∈ child.parents := by
  obtain ⟨⟨m, hm, _, _, _, e, he, _⟩, _⟩ := List.isChain_cons_cons.1 h.leads.passes
  cases hchild.symm.trans hm
  exact ⟨e, he⟩

theorem Continues.exists_node (h : Continues g q exceptions origin c ids flow) {n : Node}
    (hn : g.node? origin = some n) : ∃ m, g.node? c.node = some m := by
  cases ids with
  | nil =>
    have hlast := h.leads.last
    cases hlast
    exact ⟨n, hn⟩
  | cons i ids =>
    obtain ⟨⟨m, hm, _⟩, _⟩ := List.isChain_cons_cons.1 h.leads.passes
    exact ⟨m, hm⟩

/-- Following all edges takes a chain one node further. -/
theorem Continues.follow (hlocated : Located g) {i : NodeId}
    (h : Continues g q exceptions origin c (i :: ids) flow) (hchild : g.node? c.node = some child)
    (hfollow : followAll g q o c child (edges exceptions child) s = (t, true)) :
    ∃ c' ∈ t.pending, Continues g q exceptions origin c' ids flow := by
  obtain ⟨hagrees, ⟨_, hlast, hnodup, hpasses⟩, hfresh, hflow⟩ := h
  obtain ⟨⟨m, hm, parent, hparent, hsatisfied, e, he, rfl, hkind⟩, hpasses⟩ :=
    List.isChain_cons_cons.1 hpasses
  cases hchild.symm.trans hm
  obtain ⟨element, helement⟩ := hlocated hparent
  have hback : Back g c.visited e parent element := ⟨hfresh _ (.head _), hparent, helement⟩
  obtain ⟨s', t', _, hfollowed, ht'⟩ := followed_of_followAll hfollow (mem_edges.2 ⟨he, hkind⟩)
  cases hfollowed with
  | dead hdead => exact (hdead _ _ hback).elim
  | learned hback' hsat hunsat =>
    obtain ⟨rfl, rfl⟩ := hback.unique hback'
    rw [hsat, hunsat] at hsatisfied
    exact absurd (hsatisfied rfl) Bool.false_ne_true
  | extended hback' _ =>
    obtain ⟨rfl, rfl⟩ := hback.unique hback'
    refine ⟨_, ht'.pending (.head _), hagrees.extend, ?_, ?_, ?_⟩
    · rw [node_extend]
      exact ⟨rfl, List.getLast?_cons_cons ▸ hlast, (List.nodup_cons.1 hnodup).2, hpasses⟩
    · rw [visited_extend]
      intro i hi hmem
      rcases List.mem_cons.1 hmem with rfl | hmem
      · exact (List.nodup_cons.1 (List.nodup_cons.1 hnodup).2).1 hi
      · exact hfresh i (.tail _ hi) hmem
    · rw [node_extend, List.filterMap_cons_some hparent, explanation_extend helement hagrees,
        ← hflow, List.filterMap_cons_some hchild, List.filterMap_cons_some hparent]

/-- A chain that can be continued to a node without parents gives the flow that it tells there. -/
theorem Ends.mem_of_continues {result : List Flow} (h : Ends g q o exceptions s result)
    (hlocated : Located g) {n : Node} (hn : g.node? origin = some n) (hparents : n.parents = [])
    (hc : c ∈ s.pending) (hcontinues : Continues g q exceptions origin c ids flow)
    (hne : flow ≠ []) : flow ∈ result := by
  induction h generalizing c ids with
  | nil => contradiction
  | missing hnone _ ih =>
    rcases List.mem_cons.1 hc with rfl | hc
    · obtain ⟨m, hm⟩ := hcontinues.exists_node hn
      cases hnone.symm.trans hm
    · exact ih hc hcontinues
  | @entry c' rest flows steps child result hchild hempty hrest ih =>
    rcases List.mem_cons.1 hc with rfl | hc
    · cases ids with
      | nil =>
        have hflow := hcontinues.flow
        rw [List.filterMap_cons_some hchild, List.filterMap_nil, explanation_singleton] at hflow
        exact hrest.subset ((mem_finish g q c).2 (.inr ⟨hflow ▸ hne, hflow.symm⟩))
      | cons i ids =>
        obtain ⟨e, he⟩ := hcontinues.exists_edge hchild
        rw [hempty] at he
        contradiction
    · exact ih hc hcontinues
  | @follow c' rest flows steps child next result hchild hne' hfollow hrest ih =>
    rcases List.mem_cons.1 hc with rfl | hc
    · cases ids with
      | nil =>
        have hlast := hcontinues.leads.last
        cases hlast
        cases hchild.symm.trans hn
        exact absurd hparents hne'
      | cons i ids =>
        obtain ⟨c', hc', hcontinues'⟩ := hcontinues.follow hlocated hchild hfollow
        exact ih hc' hcontinues'
    · have hextends := followAll_extends g q o c' child (edges exceptions child) ⟨rest, flows, steps⟩
      rw [hfollow] at hextends
      exact ih (hextends.pending hc) hcontinues

/-- How many edges are looked at because of one that leads back from a chain that can get `left`
nodes longer, where no node has more than `width` parents. -/
def price (width : Nat) : Nat → Nat
  | 0 => 1
  | left + 1 => 1 + width * price width left

theorem one_le_price (width left : Nat) : 1 ≤ price width left := by
  cases left with
  | zero => exact Nat.le_refl 1
  | succ left => exact Nat.le_add_right 1 _

/-- The most edges that are still looked at. -/
def cost (g : Graph) (width : Nat) : List Chain → Nat
  | [] => 0
  | c :: pending => width * price width (g.size - c.visited.length) + cost g width pending

structure Simple (g : Graph) (c : Chain) : Prop where
  nodup : c.visited.Nodup
  lt_size : ∀ i ∈ c.visited, i < g.size

theorem Simple.extend (h : Simple g c) {e : Edge} (hback : Back g c.visited e parent element)
    (q : Query) (child : Node) :
    Simple g (extend g q c child parent e.parent element) := by
  constructor
  · rw [visited_extend]
    exact List.nodup_cons.2 ⟨hback.fresh, h.nodup⟩
  · rw [visited_extend]
    intro i hi
    rcases List.mem_cons.1 hi with rfl | hi
    · exact Graph.lt_size hback.node
    · exact h.lt_size i hi

theorem Simple.length_le (h : Simple g c) : c.visited.length ≤ g.size := by
  have hsubset : c.visited ⊆ List.range g.size := fun i hi => List.mem_range.2 (h.lt_size i hi)
  have hlength := (h.nodup.subperm hsubset).length_le
  rwa [List.length_range] at hlength

/-- The limits leave room for what the chains of a search cost, and for as much again as `extra`. -/
structure Roomy (g : Graph) (o : Options) (width extra : Nat) (s : Search) : Prop where
  simple : ∀ c ∈ s.pending, Simple g c
  steps : s.steps + extra + cost g width s.pending ≤ o.maxFlowSteps
  flows : s.flows.length + s.pending.length + 2 * (extra + cost g width s.pending) < o.maxFlows

variable {width extra : Nat}

theorem length_finish_le (g : Graph) (q : Query) (c : Chain) (locations : Flow)
    (flows : List Flow) : (finish g q c locations flows).length ≤ flows.length + 1 := by
  rcases finish_cases g q c locations flows with ⟨heq, _⟩ | ⟨heq, _⟩
  · rw [heq]
    exact Nat.le_succ _
  · rw [heq, List.length_append]
    exact Nat.le_refl _

/-- An edge takes no more room than its price. -/
theorem Roomy.followed {e : Edge} (hc : Simple g c)
    (h : Roomy g o width (price width (g.size - c.visited.length) + extra) s)
    (hfollowed : Followed g q c child e { s with steps := s.steps + 1 } t) :
    Roomy g o width extra t := by
  obtain ⟨hsimple, hsteps, hflows⟩ := h
  have hprice := one_le_price width (g.size - c.visited.length)
  cases hfollowed with
  | dead =>
    refine ⟨hsimple, ?_, ?_⟩ <;> dsimp only <;> omega
  | @learned parent element constraint =>
    have hlength := length_finish_le g q c
      (learnedAt q c child parent element constraint :: c.locations) s.flows
    refine ⟨hsimple, ?_, ?_⟩ <;> dsimp only <;> omega
  | @extended parent element hback =>
    have hextend := hc.extend hback q child
    have hlength := hextend.length_le
    rw [visited_extend, List.length_cons] at hlength
    have hleft : g.size - c.visited.length = (g.size - (c.visited.length + 1)) + 1 := by omega
    rw [hleft, price] at hsteps hflows
    refine ⟨fun c' hc' => ?_, ?_, ?_⟩
    · rcases List.mem_cons.1 hc' with rfl | hc'
      · exact hextend
      · exact hsimple c' hc'
    · rw [cost, visited_extend, List.length_cons]
      dsimp only
      omega
    · rw [cost, visited_extend, List.length_cons, List.length_cons]
      dsimp only
      omega

theorem Roomy.followAll {es : List Edge} (hc : Simple g c)
    (h : Roomy g o width (es.length * price width (g.size - c.visited.length)) s) (q : Query)
    (child : Node) :
    ∃ t, followAll g q o c child es s = (t, true) ∧ Roomy g o width 0 t := by
  induction es generalizing s with
  | nil =>
    rw [List.length_nil, Nat.zero_mul] at h
    exact ⟨s, rfl, h⟩
  | cons e es ih =>
    rw [List.length_cons, Nat.succ_mul, Nat.add_comm] at h
    have hprice := one_le_price width (g.size - c.visited.length)
    have hflows := h.flows
    have hsteps := h.steps
    simp only [Search.followAll]
    rw [if_neg (by omega), if_neg (by omega)]
    exact ih (h.followed hc (follow_followed g q c child e _))

theorem Roomy.pop {c : Chain} {rest : List Chain} {flows flows' : List Flow} {steps : Nat}
    (h : Roomy g o width 0 ⟨c :: rest, flows, steps⟩) (hflows' : flows'.length ≤ flows.length + 1) :
    Roomy g o width (width * price width (g.size - c.visited.length)) ⟨rest, flows', steps⟩ := by
  obtain ⟨hsimple, hsteps, hflows⟩ := h
  rw [cost] at hsteps hflows
  refine ⟨fun c hc => hsimple c (.tail _ hc), ?_, ?_⟩
  · dsimp only at hsteps ⊢
    omega
  · dsimp only at hflows ⊢
    rw [List.length_cons] at hflows
    omega

theorem Roomy.mono {extra' : Nat} (h : Roomy g o width extra s) (hle : extra' ≤ extra) :
    Roomy g o width extra' s := by
  obtain ⟨hsimple, hsteps, hflows⟩ := h
  exact ⟨hsimple, by omega, by omega⟩

theorem Roomy.completes (h : Roomy g o width 0 s)
    (hwidth : ∀ {i n}, g.node? i = some n → n.parents.length ≤ width) :
    completes g q o exceptions s := by
  induction s using completes.induct g q o exceptions with
  | case1 flows steps => rw [Search.completes]
  | case2 c rest flows steps hlimit =>
    have hflows := h.flows
    dsimp only at hflows
    omega
  | case3 c rest flows steps hlimit hnode ih =>
    rw [Search.completes, if_neg hlimit]
    simp only [hnode]
    exact ih ((h.pop (Nat.le_succ _)).mono (Nat.zero_le _))
  | case4 c rest flows steps hlimit child hnode hempty ih =>
    rw [Search.completes, if_neg hlimit]
    simp only [hnode, hempty, if_true]
    exact ih ((h.pop (length_finish_le _ _ _ _ _)).mono (Nat.zero_le _))
  | case5 c rest flows steps hlimit child hnode hne next ih =>
    have hedges : (edges exceptions child).length ≤ width := by
      have hfilter := List.length_filter_le (fun e => exceptions || !e.exceptional)
        child.parents.reverse
      rw [List.length_reverse] at hfilter
      exact Nat.le_trans hfilter (hwidth hnode)
    have hroom := (h.pop (Nat.le_succ _)).mono (Nat.mul_le_mul_right _ hedges)
    obtain ⟨t, hfollow, ht⟩ := hroom.followAll (h.simple c (.head _)) q child
    have hnext : next = (t, true) := hfollow
    rw [hnext] at ih
    rw [Search.completes, if_neg hlimit]
    simp only [hnode, hne, hfollow, Bool.true_and]
    exact ih ht

end Search

end Flow

namespace Graph

open Pathwise.Flow Pathwise.Flow.Search

theorem exists_width (g : Graph) :
    ∃ width, ∀ {i n}, g.node? i = some n → n.parents.length ≤ width := by
  refine ⟨(g.nodes.items.toList.map fun n => n.parents.length).sum, fun {i n} hn => ?_⟩
  have hmem : n ∈ g.nodes.items.toList := Array.mem_toList_iff.2 (Array.mem_of_getElem? hn)
  exact List.le_sum_of_mem (List.mem_map_of_mem hmem)

/-- Limits that are large enough do not stop a search. -/
theorem exists_limit (g : Graph) {start : NodeId} {n : Node} (hn : g.node? start = some n)
    (q : Query) (exceptions : Bool) :
    ∃ limit, ∀ o : Options, limit ≤ o.maxFlows → limit ≤ o.maxFlowSteps →
      completes g q o exceptions (searchFrom start q) := by
  obtain ⟨width, hwidth⟩ := g.exists_width
  refine ⟨2 * cost g width (searchFrom start q).pending + 2, fun o hflows hsteps => ?_⟩
  have hroomy : Roomy g o width 0 (searchFrom start q) := by
    refine ⟨fun c hc => ?_, ?_, ?_⟩
    · cases List.mem_singleton.1 hc
      refine ⟨List.nodup_singleton start, fun i hi => ?_⟩
      cases List.mem_singleton.1 hi
      exact lt_size hn
    · have hzero : (searchFrom start q).steps = 0 := rfl
      omega
    · have hnone : (searchFrom start q).flows.length = 0 := rfl
      have hone : (searchFrom start q).pending.length = 1 := rfl
      omega
  exact hroomy.completes hwidth

theorem exists_continues {g : Graph} {q : Query} {exceptions : Bool} {start origin : NodeId}
    {ids : List NodeId} (h : LeadsBack g q exceptions start origin ids) :
    ∃ c ∈ (searchFrom start q).pending, ∃ rest, Continues g q exceptions origin c rest
      (explanation g q q.tracks (ids.filterMap g.node?)) := by
  cases ids with
  | nil => cases h.head
  | cons i ids =>
    cases h.head
    refine ⟨_, .head _, ids, ?_, h, fun j hj hmem => ?_, ?_⟩
    · cases hempty : q.symbols.isEmpty <;> simp [Agrees, hempty]
    · cases List.mem_singleton.1 hmem
      exact (List.nodup_cons.1 h.nodup).1 hj
    · rw [List.append_nil]
      congr 1
      funext var
      cases hempty : q.symbols.isEmpty <;> simp [Chain.tracks, Query.tracks, hempty]

end Graph

open Exploration Pathwise.Flow in
/-- At every moment of an exploration, as long as the entry node has no parents: limits that are
large enough do not stop the search for flows, and where nothing stops it, each chain back to the
entry node on which the query does not get satisfied has what it explains among the flows. -/
theorem Exploration.Reached.flows_explain_entry {detectors : List Detector} {o : Options}
    {flow : ControlFlow} {done : List NodeId} {x : Exploration} {failure? : Option Failure}
    (h : Reached detectors o flow done x failure?) {entry : Node}
    (hentry : x.graph.node? 0 = some entry) (hparents : entry.parents = []) {start : NodeId}
    {n : Node} (hn : x.graph.node? start = some n) (q : Query) (exceptions : Bool) :
    (∃ limit, ∀ o' : Options, limit ≤ o'.maxFlows → limit ≤ o'.maxFlowSteps →
        Search.completes x.graph q o' exceptions (Graph.searchFrom start q)) ∧
      ∀ o' ids, Search.completes x.graph q o' exceptions (Graph.searchFrom start q) →
        LeadsBack x.graph q exceptions start 0 ids →
        explanation x.graph q q.tracks (ids.filterMap x.graph.node?) ≠ [] →
        explanation x.graph q q.tracks (ids.filterMap x.graph.node?) ∈
          x.graph.flows start q o' exceptions := by
  refine ⟨x.graph.exists_limit hn q exceptions, fun o' ids hcompletes hleads hne => ?_⟩
  have hlocated : Search.Located x.graph := by
    intro i m hm
    exact ControlFlow.element_of_mem_points (h.wellFormed.graph.mem_points hm)
  obtain ⟨c, hc, rest, hcontinues⟩ := Graph.exists_continues hleads
  exact (Search.ends_of_completes hcompletes).mem_of_continues hlocated hentry hparents hc
    hcontinues hne

def ControlFlow.relay : ControlFlow where
  routine := {
    name := "relay"
    parameters := [⟨"p", .reference "A", .source 1 7⟩]
    entry := 0
    blocks := [
      { id := 0
        instructions := [.read "p" (.source 2 5), .assign "x" (.source 2 1)]
        terminator := .goto 1 },
      { id := 1
        instructions := [.invoke ⟨"A", "more", [], .boolean, false⟩ false [] (.source 3 1)]
        terminator := .branch 1 2 (.source 3 1) },
      { id := 2, instructions := [.read "x" (.source 4 8)], terminator := .ret true (.source 4 1) }] }
  nodup := by decide
  entry_mem := by decide
  targets_mem _ hb _ hid := Routine.missingTarget?_eq_none (by decide) hb hid

def Flow.Query.nullIn (var : String) : Query where
  value := .simple 3
  symbols := [var]
  accepts := (· == .null)
  domains := [.object]

open Exploration Pathwise.Flow in
theorem flows_explain_entry_relay :
    ∃ g, (explore [] {} .relay).graph? = some g ∧
      LeadsBack g (.nullIn "x") true 6 0 [6, 5, 4, 3, 2, 1, 0] ∧
      [⟨.source 1 7, "'p' is a parameter", none⟩,
        ⟨.source 2 1, "'x' is assigned", some ⟨0, 1⟩⟩] ∈ g.flows 6 (.nullIn "x") {} true := by
  obtain ⟨done, x, failure?, h, hgraph, _⟩ := explore_reached [] {} .relay
  have hfacts : (explore [] {} .relay).graph?.any fun g =>
      (g.node? 0).any (·.parents = []) ∧ (g.node? 6).isSome ∧
      Search.completes g (.nullIn "x") {} true (Graph.searchFrom 6 (.nullIn "x")) ∧
      LeadsBack g (.nullIn "x") true 6 0 [6, 5, 4, 3, 2, 1, 0] ∧
      explanation g (.nullIn "x") (Query.nullIn "x").tracks
          ([6, 5, 4, 3, 2, 1, 0].filterMap g.node?) =
        [⟨.source 1 7, "'p' is a parameter", none⟩,
          ⟨.source 2 1, "'x' is assigned", some ⟨0, 1⟩⟩] := by
    decide +kernel
  rw [hgraph] at hfacts
  obtain ⟨hentry, hstart, hcompletes, hleads, hflow⟩ := of_decide_eq_true hfacts
  obtain ⟨entry, hentry, hparents⟩ := (Option.any_eq_true _ _).1 hentry
  obtain ⟨n, hn⟩ := Option.isSome_iff_exists.1 hstart
  have hmem := (h.flows_explain_entry hentry (of_decide_eq_true hparents) hn (.nullIn "x") true).2
    {} _ hcompletes hleads
  rw [hflow] at hmem
  exact ⟨x.graph, hgraph, hleads, hmem (List.cons_ne_nil _ _)⟩

/-- A parameter is returned after a loop that starts the routine. -/
def ControlFlow.poll : ControlFlow where
  routine := {
    name := "poll"
    parameters := [⟨"p", .reference "A", .source 1 7⟩]
    entry := 0
    blocks := [
      { id := 0
        instructions := [.invoke ⟨"A", "more", [], .boolean, false⟩ false [] (.source 2 1)]
        terminator := .branch 0 1 (.source 2 1) },
      { id := 1, instructions := [.read "p" (.source 3 8)], terminator := .ret true (.source 3 1) }] }
  nodup := by decide
  entry_mem := by decide
  targets_mem _ hb _ hid := Routine.missingTarget?_eq_none (by decide) hb hid

open Pathwise.Flow in
/-- The loop comes back to the entry node, and the flow from the parameter is not found. -/
theorem poll_flow_lost :
    ∃ g, (explore [] {} .poll).graph? = some g ∧
      Search.completes g (.nullIn "p") {} true (Graph.searchFrom 3 (.nullIn "p")) ∧
      LeadsBack g (.nullIn "p") true 3 0 [3, 2, 1, 0] ∧
      explanation g (.nullIn "p") (Query.nullIn "p").tracks ([3, 2, 1, 0].filterMap g.node?) =
        [⟨.source 1 7, "'p' is a parameter", none⟩] ∧
      g.flows 3 (.nullIn "p") {} true = [] := by
  have hfacts : (explore [] {} .poll).graph?.any fun g =>
      Search.completes g (.nullIn "p") {} true (Graph.searchFrom 3 (.nullIn "p")) ∧
      LeadsBack g (.nullIn "p") true 3 0 [3, 2, 1, 0] ∧
      explanation g (.nullIn "p") (Query.nullIn "p").tracks ([3, 2, 1, 0].filterMap g.node?) =
        [⟨.source 1 7, "'p' is a parameter", none⟩] ∧
      g.flows 3 (.nullIn "p") {} true = [] := by
    decide +kernel
  obtain ⟨g, hg, hfacts⟩ := (Option.any_eq_true _ _).1 hfacts
  exact ⟨g, hg, of_decide_eq_true hfacts⟩

end Pathwise
