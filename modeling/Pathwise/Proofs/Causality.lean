import Mathlib.Data.List.Forall2
import Pathwise.Proofs.EntryFlows

namespace Pathwise

namespace Flow

/-- In the state, the value or one known to be equal to it holds an accepted constraint of one of the
domains. -/
def Query.Holds (q : Query) (s : State) : Prop :=
  ∃ v, (v = q.value ∨ v ∈ s.equalValues q.value) ∧
    ∃ d ∈ q.domains, ∃ c, s.constraint? v d = some c ∧ q.accepts c

theorem Query.isSome_satisfied? {q : Query} {s : State} : (q.satisfied? s).isSome ↔ q.Holds s := by
  simp only [satisfied?, List.findSome?_isSome_iff, List.find?_isSome, List.mem_filterMap,
    List.mem_cons, Holds]
  constructor
  · rintro ⟨v, hv, c, ⟨d, hd, hc⟩, haccepts⟩
    exact ⟨v, hv, d, hd, c, hc, haccepts⟩
  · rintro ⟨v, hv, d, hd, c, hc, haccepts⟩
    exact ⟨v, hv, c, ⟨d, hd, hc⟩, haccepts⟩

/-- A path of the graph, with the ids of its nodes: each node is a parent of the next one, and none
comes twice. Without `exceptions`, edges do not count that exist only because a call threw. -/
structure IsPath (g : Graph) (exceptions : Bool) (path : List (NodeId × Node)) : Prop where
  nodes : ∀ x ∈ path, g.node? x.1 = some x.2
  nodup : (path.map Prod.fst).Nodup
  parents : path.IsChain fun parent child =>
    ∃ e ∈ child.2.parents, e.parent = parent.1 ∧ (exceptions || !e.exceptional)

/-- The location is that of an assignment at `parent`: in the state of `child` it has bound a variable
to the queried value that was not bound to it before. -/
def Assigns (g : Graph) (q : Query) (l : Location) (parent child : Node) : Prop :=
  ∃ var, g.flow.element parent.point = .ok (.instruction (.assign var l.pos)) ∧
    l.point? = some parent.point ∧ child.state.binds var q.value ∧
    ¬ parent.state.binds var q.value ∧ l.message = assignedMessage var (q.satisfied? child.state)

/-- The location is that of the element at `parent`, and the query holds only from `child` on. -/
structure Learns (g : Graph) (q : Query) (l : Location) (parent child : Node) : Prop where
  element : ∃ element, g.flow.element parent.point = .ok element ∧ l.pos = element.pos
  point : l.point? = some parent.point
  holds : q.Holds child.state
  not_holds : ¬ q.Holds parent.state

/-- The locations are those of assignments on some steps of the path, in the order of the path. -/
def Marks (g : Graph) (q : Query) (path : List (NodeId × Node)) (locations : Flow) : Prop :=
  List.SublistForall₂ (fun l step => Assigns g q l step.1.2 step.2.2) locations
    (path.zip path.tail)

/-- The path has a beginning that needs no explanation, and the locations are those of assignments
on it. -/
inductive Told (g : Graph) (q : Query) : List (NodeId × Node) → Flow → Prop
  /-- Nothing comes before the first node. -/
  | entry {first path locations} : first.2.parents = [] → Marks g q (first :: path) locations →
      Told g q (first :: path) locations
  /-- The element at the first node made the query hold. -/
  | learned {first second path l locations} : Learns g q l first.2 second.2 →
      Marks g q (second :: path) locations → Told g q (first :: second :: path) (l :: locations)

/-- The parameter is bound to the queried value where the routine is entered. -/
def StartsWith (g : Graph) (q : Query) (p : Parameter) : Prop :=
  p ∈ g.flow.parameters ∧ ∃ entry, g.node? 0 = some entry ∧ entry.state.binds p.name q.value

/-- The flow is told along a path to the start, after the parameter that the value came from if there
is one. -/
inductive Genuine (g : Graph) (q : Query) (exceptions : Bool) (start : NodeId) : Flow → Prop
  | mk {p? path locations} : (∀ p, p? = some p → StartsWith g q p) → IsPath g exceptions path →
      path.getLast?.map Prod.fst = some start → Told g q path locations →
      Genuine g q exceptions start (p?.toList.map parameterLocation ++ locations)

section

variable {g : Graph} {q : Query} {exceptions : Bool} {path : List (NodeId × Node)}
  {first second : NodeId × Node} {l : Location} {locations : Flow}

theorem isPath_singleton (h : g.node? first.1 = some first.2) : IsPath g exceptions [first] := by
  refine ⟨fun x hx => ?_, List.nodup_singleton _, List.isChain_singleton _⟩
  cases List.mem_singleton.1 hx
  exact h

theorem IsPath.cons (h : IsPath g exceptions (second :: path))
    (hnode : g.node? first.1 = some first.2) (hfresh : first.1 ∉ (second :: path).map Prod.fst)
    (hparent : ∃ e ∈ second.2.parents, e.parent = first.1 ∧ (exceptions || !e.exceptional)) :
    IsPath g exceptions (first :: second :: path) := by
  refine ⟨?_, ?_, List.isChain_cons_cons.2 ⟨hparent, h.parents⟩⟩
  · exact List.forall_mem_cons.2 ⟨hnode, h.nodes⟩
  · exact List.nodup_cons.2 ⟨hfresh, h.nodup⟩

theorem marks_singleton (g : Graph) (q : Query) (first : NodeId × Node) : Marks g q [first] [] :=
  .nil

theorem Marks.pass (h : Marks g q (second :: path) locations) :
    Marks g q (first :: second :: path) locations :=
  .cons_right h

theorem Marks.assign (h : Marks g q (second :: path) locations)
    (hassigns : Assigns g q l first.2 second.2) :
    Marks g q (first :: second :: path) (l :: locations) :=
  .cons hassigns h

theorem assigns_of_assigned? {tracks : String → Bool} {parent child : Node} {var : String}
    (h : assigned? g q tracks child parent = some (var, l)) : Assigns g q l parent child := by
  unfold assigned? at h
  split at h
  next var' pos helement =>
    split at h
    next hassigned =>
      simp only [Bool.and_eq_true, Bool.not_eq_true'] at hassigned
      obtain ⟨⟨_, hchild⟩, hparent⟩ := hassigned
      cases h
      exact ⟨var, helement, rfl, hchild, Bool.eq_false_iff.1 hparent, rfl⟩
    next => cases h
  next => cases h

theorem startsWith_of_parameterOf? {p : Parameter} (h : g.parameterOf? q.value = some p) :
    StartsWith g q p := by
  obtain ⟨entry, hentry, hfind⟩ := Option.bind_eq_some_iff.1 h
  have hbinds := List.find?_some hfind
  exact ⟨List.mem_of_find?_eq_some hfind, entry, hentry, hbinds⟩

end

namespace Search

variable {g : Graph} {q : Query} {o : Options} {exceptions : Bool} {s t : Search} {c : Chain}
  {child : Node} {e : Edge} {start : NodeId} {path : List (NodeId × Node)} {locations : Flow}

def Accounts (g : Graph) (q : Query) (exceptions : Bool) (start : NodeId) (flow : Flow) : Prop :=
  flow ≠ [] ∧ Genuine g q exceptions start flow

structure Along (g : Graph) (q : Query) (exceptions : Bool) (start : NodeId) (c : Chain)
    (path : List (NodeId × Node)) : Prop where
  visited : c.visited = path.map Prod.fst
  isPath : IsPath g exceptions path
  last : path.getLast?.map Prod.fst = some start
  marks : Marks g q path c.locations

structure Faithful (g : Graph) (q : Query) (exceptions : Bool) (start : NodeId) (s : Search) :
    Prop where
  flows : ∀ f ∈ s.flows, Accounts g q exceptions start f
  pending : ∀ c ∈ s.pending, ∀ n, g.node? c.node = some n →
    ∃ path, Along g q exceptions start c ((c.node, n) :: path)

theorem genuine_flowOf (hpath : IsPath g exceptions path)
    (hlast : path.getLast?.map Prod.fst = some start) (htold : Told g q path locations) (c : Chain) :
    Genuine g q exceptions start (flowOf g q c locations) := by
  apply Genuine.mk _ hpath hlast htold
  intro p hp
  exact startsWith_of_parameterOf? (Option.filter_eq_some_iff.1 hp).1

theorem accounts_finish {flows : List Flow}
    (hflows : ∀ f ∈ flows, Accounts g q exceptions start f) (hpath : IsPath g exceptions path)
    (hlast : path.getLast?.map Prod.fst = some start) (htold : Told g q path locations) :
    ∀ f ∈ finish g q c locations flows, Accounts g q exceptions start f :=
  forall_mem_finish hflows fun hne => ⟨hne, genuine_flowOf hpath hlast htold c⟩

theorem Along.isPath_cons (h : Along g q exceptions start c ((c.node, child) :: path))
    {parent : Node} {element : Element} (hback : Back g c.visited e parent element)
    (he : e ∈ edges exceptions child) :
    IsPath g exceptions ((e.parent, parent) :: (c.node, child) :: path) := by
  obtain ⟨he, hkind⟩ := mem_edges.1 he
  apply h.isPath.cons hback.node
  · rw [← h.visited]
    exact hback.fresh
  · exact ⟨e, he, rfl, hkind⟩

theorem Along.last_cons (h : Along g q exceptions start c ((c.node, child) :: path))
    (x : NodeId × Node) :
    (x :: (c.node, child) :: path).getLast?.map Prod.fst = some start := by
  rw [List.getLast?_cons_cons]
  exact h.last

theorem Along.extend (h : Along g q exceptions start c ((c.node, child) :: path))
    {parent : Node} {element : Element} (hback : Back g c.visited e parent element)
    (he : e ∈ edges exceptions child) :
    Along g q exceptions start (extend g q c child parent e.parent element)
      ((e.parent, parent) :: (c.node, child) :: path) := by
  refine ⟨?_, h.isPath_cons hback he, h.last_cons _, ?_⟩
  · rw [visited_extend, h.visited]
    rfl
  · cases hassigned : assigned? g q c.tracks child parent with
    | none =>
      rw [extend_of_not_assigned hback.element hassigned]
      exact h.marks.pass
    | some a =>
      obtain ⟨var, location⟩ := a
      rw [extend_of_assigned hback.element hassigned]
      exact h.marks.assign (assigns_of_assigned? hassigned)

theorem Followed.faithful (h : Followed g q c child e s t) (hs : Faithful g q exceptions start s)
    (hc : ∃ path, Along g q exceptions start c ((c.node, child) :: path))
    (he : e ∈ edges exceptions child) : Faithful g q exceptions start t := by
  obtain ⟨path, hc⟩ := hc
  cases h with
  | dead => exact hs
  | learned hback hsat hunsat =>
    refine ⟨?_, hs.pending⟩
    apply accounts_finish hs.flows (hc.isPath_cons hback he) (hc.last_cons _)
    refine .learned ⟨⟨_, hback.element, rfl⟩, rfl, ?_, ?_⟩ hc.marks
    · rw [← Query.isSome_satisfied?, hsat]
      rfl
    · rw [← Query.isSome_satisfied?, hunsat]
      exact Bool.false_ne_true
  | extended hback _ =>
    refine ⟨hs.flows, fun c' hc' n hn => ?_⟩
    rcases List.mem_cons.1 hc' with rfl | hc'
    · rw [node_extend] at hn ⊢
      cases hback.node.symm.trans hn
      exact ⟨_, hc.extend hback he⟩
    · exact hs.pending c' hc' n hn

theorem followAll_faithful {es : List Edge} (hs : Faithful g q exceptions start s)
    (hc : ∃ path, Along g q exceptions start c ((c.node, child) :: path))
    (hes : ∀ e ∈ es, e ∈ edges exceptions child) :
    Faithful g q exceptions start (followAll g q o c child es s).1 := by
  apply followAll_induction (I := Faithful g q exceptions start)
  · intro s n hs
    exact ⟨hs.flows, hs.pending⟩
  · intro e s t he hs _ hfollowed
    exact hfollowed.faithful hs hc (hes e he)
  · exact hs

/-- All that a search finds is genuine, wherever it stops. -/
theorem run_accounts (hs : Faithful g q exceptions start s) :
    ∀ f ∈ run g q o exceptions s, Accounts g q exceptions start f := by
  have hrest {c : Chain} {rest : List Chain} {flows : List Flow} {steps : Nat}
      (hs : Faithful g q exceptions start ⟨c :: rest, flows, steps⟩) :
      Faithful g q exceptions start ⟨rest, flows, steps⟩ :=
    ⟨hs.flows, fun c hc => hs.pending c (.tail _ hc)⟩
  obtain ⟨t, ht, hrun⟩ : ∃ t, Faithful g q exceptions start t ∧
      run g q o exceptions s = t.flows := by
    apply run_induction
    · intro c rest flows steps _ hs
      exact hrest hs
    · intro c rest flows steps child hnode hempty hs _
      obtain ⟨path, hc⟩ := hs.pending c (.head _) child hnode
      refine ⟨?_, (hrest hs).pending⟩
      exact accounts_finish hs.flows hc.isPath hc.last (.entry hempty hc.marks)
    · intro c rest flows steps child hnode hs
      exact followAll_faithful (hrest hs) (hs.pending c (.head _) child hnode) fun _ he => he
    · exact hs
  rw [hrun]
  exact ht.flows

end Search

end Flow

namespace Graph

open Pathwise.Flow Pathwise.Flow.Search

theorem faithful_searchFrom (g : Graph) (start : NodeId) (q : Query) (exceptions : Bool) :
    Faithful g q exceptions start (searchFrom start q) := by
  refine ⟨List.forall_mem_nil _, fun c hc n hn => ?_⟩
  cases List.mem_singleton.1 hc
  exact ⟨[], rfl, isPath_singleton hn, rfl, marks_singleton g q _⟩

/-- Each flow that is found, within whatever limits, is a causal chain: it is told along a path of the
graph that leads to the start and to no node twice. It begins at a node without parents or where the
query came to hold, and its further locations are those of assignments of the value. -/
theorem flows_genuine {g : Graph} {start : NodeId} {q : Query} {o : Options} {exceptions : Bool}
    {flow : Flow} (h : flow ∈ g.flows start q o exceptions) :
    flow ≠ [] ∧ Genuine g q exceptions start flow :=
  run_accounts (g.faithful_searchFrom start q exceptions) flow h

end Graph

def ControlFlow.checked : ControlFlow where
  routine := {
    name := "checked"
    parameters := [⟨"p", .reference "A", .source 1 7⟩]
    entry := 0
    blocks := [
      { id := 0
        instructions := [.read "p" (.source 2 5), .literal .null (.source 2 10),
          .binary .equal (.source 2 7)]
        terminator := .branch 1 2 (.source 2 1) },
      { id := 1
        instructions := [.read "p" (.source 3 7), .assign "x" (.source 3 3),
          .read "x" (.source 4 10)]
        terminator := .ret true (.source 4 3) },
      { id := 2, terminator := .exit }] }
  nodup := by decide
  entry_mem := by decide
  targets_mem _ hb _ hid := Routine.missingTarget?_eq_none (by decide) hb hid

open Pathwise.Flow in
theorem flows_genuine_checked :
    ∃ g, (explore [] {} .checked).graph? = some g ∧
      ∃ flow ∈ g.flows 8 (.nullIn "x") {} true,
        flow.map (·.point?) = [none, some ⟨0, 3⟩, some ⟨1, 1⟩] ∧
          Genuine g (.nullIn "x") true 8 flow := by
  have hfacts : (explore [] {} .checked).graph?.any fun g =>
      (g.flows 8 (.nullIn "x") {} true).any fun flow =>
        flow.map (·.point?) = [none, some ⟨0, 3⟩, some ⟨1, 1⟩] := by
    decide +kernel
  obtain ⟨g, hg, hfacts⟩ := (Option.any_eq_true _ _).1 hfacts
  obtain ⟨flow, hflow, hpoints⟩ := List.any_eq_true.1 hfacts
  obtain ⟨_, hgenuine⟩ := Graph.flows_genuine hflow
  exact ⟨g, hg, flow, hflow, of_decide_eq_true hpoints, hgenuine⟩

end Pathwise
