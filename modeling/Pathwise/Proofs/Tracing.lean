import Pathwise.Flow

namespace Pathwise

namespace Flow

namespace Search

variable {g : Graph} {q : Query} {o : Options} {exceptions : Bool} {s t u : Search}

def edges (exceptions : Bool) (child : Node) : List Edge :=
  child.parents.reverse.filter fun e => exceptions || !e.exceptional

section

variable {c : Chain} {rest : List Chain} {flows : List Flow} {steps : Nat} {child : Node}

theorem run_of_full (hfull : o.maxFlows ≤ flows.length) :
    run g q o exceptions ⟨c :: rest, flows, steps⟩ = flows := by
  rw [run, if_pos hfull]

theorem run_of_missing (hlimit : ¬ o.maxFlows ≤ flows.length) (hnode : g.node? c.node = none) :
    run g q o exceptions ⟨c :: rest, flows, steps⟩ =
      run g q o exceptions ⟨rest, flows, steps⟩ := by
  rw [run, if_neg hlimit]
  simp only [hnode]

theorem run_of_entry (hlimit : ¬ o.maxFlows ≤ flows.length) (hnode : g.node? c.node = some child)
    (hempty : child.parents.isEmpty) :
    run g q o exceptions ⟨c :: rest, flows, steps⟩ =
      run g q o exceptions ⟨rest, finish g q c c.locations flows, steps⟩ := by
  rw [run, if_neg hlimit]
  simp only [hnode, hempty, if_true]

theorem run_of_followed (hlimit : ¬ o.maxFlows ≤ flows.length) (hnode : g.node? c.node = some child)
    (hne : ¬ child.parents.isEmpty)
    (hall : (followAll g q o c child (edges exceptions child) ⟨rest, flows, steps⟩).2) :
    run g q o exceptions ⟨c :: rest, flows, steps⟩ =
      run g q o exceptions
        (followAll g q o c child (edges exceptions child) ⟨rest, flows, steps⟩).1 := by
  rw [run, if_neg hlimit]
  simp only [hnode, hne]
  exact if_pos hall

theorem run_of_stopped (hlimit : ¬ o.maxFlows ≤ flows.length) (hnode : g.node? c.node = some child)
    (hne : ¬ child.parents.isEmpty)
    (hall : ¬ (followAll g q o c child (edges exceptions child) ⟨rest, flows, steps⟩).2) :
    run g q o exceptions ⟨c :: rest, flows, steps⟩ =
      (followAll g q o c child (edges exceptions child) ⟨rest, flows, steps⟩).1.flows := by
  rw [run, if_neg hlimit]
  simp only [hnode, hne]
  exact if_neg hall

end

def completes (g : Graph) (q : Query) (o : Options) (exceptions : Bool) : Search → Bool
  | ⟨[], _, _⟩ => true
  | ⟨c :: rest, flows, steps⟩ =>
    if flows.length ≥ o.maxFlows then false
    else
      match g.node? c.node with
      | none => completes g q o exceptions ⟨rest, flows, steps⟩
      | some child =>
        if child.parents.isEmpty then
          completes g q o exceptions ⟨rest, finish g q c c.locations flows, steps⟩
        else
          let next := followAll g q o c child (edges exceptions child) ⟨rest, flows, steps⟩
          next.2 && completes g q o exceptions next.1
termination_by s => (o.maxFlowSteps - s.steps) + s.pending.length
decreasing_by
  · simp
  · simp
  · have := followAll_measure g q o c child (edges exceptions child) ⟨rest, flows, steps⟩
    simp only at this
    simp only [List.length_cons]
    omega

/-- The search comes to its end with these flows, and no limit was in its way. -/
inductive Ends (g : Graph) (q : Query) (o : Options) (exceptions : Bool) :
    Search → List Flow → Prop
  | nil {flows steps} : Ends g q o exceptions ⟨[], flows, steps⟩ flows
  | missing {c rest flows steps result} : g.node? c.node = none →
      Ends g q o exceptions ⟨rest, flows, steps⟩ result →
      Ends g q o exceptions ⟨c :: rest, flows, steps⟩ result
  | entry {c rest flows steps child result} : g.node? c.node = some child → child.parents = [] →
      Ends g q o exceptions ⟨rest, finish g q c c.locations flows, steps⟩ result →
      Ends g q o exceptions ⟨c :: rest, flows, steps⟩ result
  | follow {c rest flows steps child next result} : g.node? c.node = some child →
      child.parents ≠ [] →
      followAll g q o c child (edges exceptions child) ⟨rest, flows, steps⟩ = (next, true) →
      Ends g q o exceptions next result → Ends g q o exceptions ⟨c :: rest, flows, steps⟩ result

theorem ends_of_completes (h : completes g q o exceptions s) :
    Ends g q o exceptions s (run g q o exceptions s) := by
  induction s using completes.induct g q o exceptions with
  | case1 flows steps =>
    rw [run]
    exact .nil
  | case2 c rest flows steps hlimit =>
    rw [completes, if_pos hlimit] at h
    contradiction
  | case3 c rest flows steps hlimit hnode ih =>
    rw [completes, if_neg hlimit] at h
    simp only [hnode] at h
    rw [run_of_missing hlimit hnode]
    exact .missing hnode (ih h)
  | case4 c rest flows steps hlimit child hnode hempty ih =>
    rw [completes, if_neg hlimit] at h
    simp only [hnode, hempty, if_true] at h
    rw [run_of_entry hlimit hnode hempty]
    exact .entry hnode (List.isEmpty_iff.1 hempty) (ih h)
  | case5 c rest flows steps hlimit child hnode hne next ih =>
    rw [completes, if_neg hlimit] at h
    simp only [hnode, hne] at h
    obtain ⟨hall, hrest⟩ := Bool.and_eq_true_iff.1 h
    rw [run_of_followed hlimit hnode hne hall]
    exact .follow hnode (mt List.isEmpty_iff.2 hne) (Prod.ext rfl hall) (ih hrest)

structure Extends (s t : Search) : Prop where
  flows : s.flows ⊆ t.flows
  pending : s.pending ⊆ t.pending

theorem Extends.refl (s : Search) : s.Extends s := ⟨List.Subset.refl _, List.Subset.refl _⟩

theorem Extends.trans (h : s.Extends t) (h' : t.Extends u) : s.Extends u :=
  ⟨List.Subset.trans h.flows h'.flows, List.Subset.trans h.pending h'.pending⟩

theorem extends_steps (s : Search) (n : Nat) : s.Extends { s with steps := n } :=
  ⟨List.Subset.refl _, List.Subset.refl _⟩

theorem mem_flowOf (g : Graph) (q : Query) (c : Chain) {l : Location} {locations : Flow} :
    (l ∈ locations → l ∈ flowOf g q c locations) ∧
      (l ∈ flowOf g q c locations → l ∈ locations ∨ l.point? = none) := by
  refine ⟨List.mem_append_right _, fun h => ?_⟩
  rcases List.mem_append.1 h with h | h
  · obtain ⟨p, _, rfl⟩ := List.mem_map.1 h
    exact .inr rfl
  · exact .inl h

theorem finish_cases (g : Graph) (q : Query) (c : Chain) (locations : Flow) (flows : List Flow) :
    finish g q c locations flows = flows ∧
        (flowOf g q c locations = [] ∨ flowOf g q c locations ∈ flows) ∨
      finish g q c locations flows = flows ++ [flowOf g q c locations] ∧
        flowOf g q c locations ≠ [] ∧ flowOf g q c locations ∉ flows := by
  unfold finish
  simp only
  split
  next h =>
    rw [Bool.or_eq_true, List.isEmpty_iff, List.contains_iff_mem] at h
    exact .inl ⟨rfl, h⟩
  next h =>
    rw [Bool.or_eq_true, List.isEmpty_iff, List.contains_iff_mem, not_or] at h
    exact .inr ⟨rfl, h⟩

theorem mem_finish (g : Graph) (q : Query) (c : Chain) {locations f : Flow} {flows : List Flow} :
    f ∈ finish g q c locations flows ↔
      f ∈ flows ∨ flowOf g q c locations ≠ [] ∧ f = flowOf g q c locations := by
  rcases finish_cases g q c locations flows with ⟨heq, hold⟩ | ⟨heq, hne, _⟩
  · rw [heq]
    refine ⟨.inl, fun h => h.elim id ?_⟩
    rintro ⟨hne, rfl⟩
    exact hold.resolve_left hne
  · rw [heq, List.mem_append, List.mem_singleton, and_iff_right hne]

theorem forall_mem_finish {P : Flow → Prop} {c : Chain} {locations : Flow} {flows : List Flow}
    (hflows : ∀ f ∈ flows, P f) (hnew : flowOf g q c locations ≠ [] → P (flowOf g q c locations)) :
    ∀ f ∈ finish g q c locations flows, P f := by
  intro f hf
  rcases (mem_finish g q c).1 hf with hf | ⟨hne, rfl⟩
  · exact hflows f hf
  · exact hnew hne

theorem exists_mem_finish (g : Graph) (q : Query) (c : Chain) {l : Location} {locations : Flow}
    (flows : List Flow) (hl : l ∈ locations) : ∃ f ∈ finish g q c locations flows, l ∈ f := by
  have hmem := (mem_flowOf g q c).1 hl
  exact ⟨_, (mem_finish g q c).2 (.inr ⟨List.ne_nil_of_mem hmem, rfl⟩), hmem⟩

/-- The edge leads back from the last node of a chain, to a node that the chain does not have. -/
structure Back (g : Graph) (visited : List NodeId) (e : Edge) (parent : Node) (element : Element) :
    Prop where
  fresh : e.parent ∉ visited
  node : g.node? e.parent = some parent
  element : g.flow.element parent.point = .ok element

theorem Back.unique {visited : List NodeId} {e : Edge} {parent parent' : Node}
    {element element' : Element} (h : Back g visited e parent element)
    (h' : Back g visited e parent' element') : parent' = parent ∧ element' = element := by
  obtain ⟨_, hnode, helement⟩ := h
  obtain ⟨_, hnode', helement'⟩ := h'
  cases hnode.symm.trans hnode'
  cases helement.symm.trans helement'
  exact ⟨rfl, rfl⟩

/-- The three things that can come of an edge. -/
inductive Followed (g : Graph) (q : Query) (c : Chain) (child : Node) (e : Edge) (s : Search) :
    Search → Prop
  | dead : (∀ parent element, ¬ Back g c.visited e parent element) → Followed g q c child e s s
  | learned {parent element constraint} : Back g c.visited e parent element →
      q.satisfied? child.state = some constraint → q.satisfied? parent.state = none →
      Followed g q c child e s { s with
        flows := finish g q c (learnedAt q c child parent element constraint :: c.locations) s.flows }
  | extended {parent element} : Back g c.visited e parent element →
      ((q.satisfied? child.state).isSome → (q.satisfied? parent.state).isSome) →
      Followed g q c child e s { s with
        pending := extend g q c child parent e.parent element :: s.pending }

theorem follow_followed (g : Graph) (q : Query) (c : Chain) (child : Node) (e : Edge)
    (s : Search) : Followed g q c child e s (follow g q c child e s) := by
  unfold follow
  split
  next hvisited =>
    exact .dead fun _ _ h => h.fresh (List.contains_iff_mem.1 hvisited)
  next hvisited =>
    have hfresh : e.parent ∉ c.visited := fun h => hvisited (List.contains_iff_mem.2 h)
    split
    next hnone =>
      refine .dead fun _ _ h => ?_
      cases hnone.symm.trans h.node
    next parent hnode =>
      split
      next herror =>
        refine .dead fun _ _ h => ?_
        cases hnode.symm.trans h.node
        cases herror.symm.trans h.element
      next element helement =>
        have hback : Back g c.visited e parent element := ⟨hfresh, hnode, helement⟩
        split
        next hchild hparent => exact .learned hback hchild hparent
        next hnot =>
          refine .extended hback fun hchild => ?_
          cases hparent : q.satisfied? parent.state with
          | some => rfl
          | none =>
            obtain ⟨constraint, hchild⟩ := Option.isSome_iff_exists.1 hchild
            exact (hnot constraint hchild hparent).elim

theorem Followed.extends {c : Chain} {child : Node} {e : Edge}
    (h : Followed g q c child e s t) : s.Extends t := by
  cases h with
  | dead => exact .refl s
  | learned => exact ⟨fun f hf => (mem_finish g q c).2 (.inl hf), List.Subset.refl _⟩
  | extended => exact ⟨List.Subset.refl _, List.subset_cons_self _ _⟩

theorem followAll_induction {I : Search → Prop} {c : Chain} {child : Node} {es : List Edge}
    (hsteps : ∀ {s} n, I s → I { s with steps := n })
    (hfollow : ∀ {e s t}, e ∈ es → I s → s.flows.length < o.maxFlows → Followed g q c child e s t →
      I t) (hs : I s) : I (followAll g q o c child es s).1 := by
  induction es generalizing s with
  | nil => exact hs
  | cons e es ih =>
    simp only [followAll]
    split
    · exact hs
    next hlimit =>
      split
      · exact hs
      · have hfollowed := follow_followed g q c child e { s with steps := s.steps + 1 }
        apply ih (fun he => hfollow (.tail _ he))
        exact hfollow (.head _) (hsteps (s.steps + 1) hs) (Nat.lt_of_not_le hlimit) hfollowed

theorem followAll_extends (g : Graph) (q : Query) (o : Options) (c : Chain) (child : Node)
    (es : List Edge) (s : Search) : s.Extends (followAll g q o c child es s).1 := by
  apply followAll_induction
  · intro t n ht
    exact ht.trans (t.extends_steps n)
  · intro e t u _ ht _ hfollowed
    exact ht.trans hfollowed.extends
  · exact .refl s

/-- What the moves of a search keep, holds where it stops, be it at its end or at a limit. -/
theorem run_induction {I : Search → Prop}
    (hmissing : ∀ {c rest flows steps}, g.node? c.node = none → I ⟨c :: rest, flows, steps⟩ →
      I ⟨rest, flows, steps⟩)
    (hentry : ∀ {c rest flows steps child}, g.node? c.node = some child → child.parents = [] →
      I ⟨c :: rest, flows, steps⟩ → flows.length < o.maxFlows →
      I ⟨rest, finish g q c c.locations flows, steps⟩)
    (hfollow : ∀ {c rest flows steps child}, g.node? c.node = some child →
      I ⟨c :: rest, flows, steps⟩ →
      I (followAll g q o c child (edges exceptions child) ⟨rest, flows, steps⟩).1) (hs : I s) :
    ∃ t, I t ∧ run g q o exceptions s = t.flows := by
  induction s using run.induct g q o exceptions with
  | case1 flows steps =>
    rw [run]
    exact ⟨_, hs, rfl⟩
  | case2 c rest flows steps hlimit =>
    rw [run_of_full hlimit]
    exact ⟨_, hs, rfl⟩
  | case3 c rest flows steps hlimit hnode ih =>
    rw [run_of_missing hlimit hnode]
    exact ih (hmissing hnode hs)
  | case4 c rest flows steps hlimit child hnode hempty ih =>
    rw [run_of_entry hlimit hnode hempty]
    exact ih (hentry hnode (List.isEmpty_iff.1 hempty) hs (Nat.lt_of_not_le hlimit))
  | case5 c rest flows steps hlimit child hnode hne es next hall ih =>
    rw [run_of_followed hlimit hnode hne hall]
    exact ih (hfollow hnode hs)
  | case6 c rest flows steps hlimit child hnode hne es next hall =>
    rw [run_of_stopped hlimit hnode hne hall]
    exact ⟨next.1, hfollow hnode hs, rfl⟩

theorem followed_of_followAll {c : Chain} {child : Node} {es : List Edge} {e : Edge}
    (h : followAll g q o c child es s = (t, true)) (he : e ∈ es) :
    ∃ s' t', s.Extends s' ∧ Followed g q c child e s' t' ∧ t'.Extends t := by
  induction es generalizing s with
  | nil => contradiction
  | cons e' es ih =>
    simp only [followAll] at h
    split at h
    · cases h
    · split at h
      · cases h
      · have hfollowed := follow_followed g q c child e' { s with steps := s.steps + 1 }
        rcases List.mem_cons.1 he with rfl | he
        · refine ⟨_, _, s.extends_steps _, hfollowed, ?_⟩
          have hextends := followAll_extends g q o c child es
            (follow g q c child e { s with steps := s.steps + 1 })
          rw [h] at hextends
          exact hextends
        · obtain ⟨s', t', hs', hfollow, ht'⟩ := ih h he
          exact ⟨s', t', ((s.extends_steps _).trans hfollowed.extends).trans hs', hfollow, ht'⟩

theorem Ends.subset {result : List Flow} (h : Ends g q o exceptions s result) :
    s.flows ⊆ result := by
  induction h with
  | nil => exact List.Subset.refl _
  | missing _ _ ih => exact ih
  | entry _ _ _ ih => exact fun f hf => ih ((mem_finish g q _).2 (.inl hf))
  | @follow c rest flows steps child next result _ _ hfollow _ ih =>
    have hextends := followAll_extends g q o c child (edges exceptions child) ⟨rest, flows, steps⟩
    rw [hfollow] at hextends
    exact List.Subset.trans hextends.flows ih

end Search

open Search

/-- Going back from the node `id` by edges of the kind that is followed, and to none of the nodes
`visited`, the query stays satisfied as far as `parent`, whose element made it so. -/
inductive Traced (g : Graph) (q : Query) (exceptions : Bool) :
    List NodeId → NodeId → Node → Element → Prop
  | learned {visited id child e parent element} : g.node? id = some child → e ∈ child.parents →
      exceptions || !e.exceptional → Back g visited e parent element →
      (q.satisfied? child.state).isSome → q.satisfied? parent.state = none →
      Traced g q exceptions visited id parent element
  | held {visited id child e parent element parent' element'} : g.node? id = some child →
      e ∈ child.parents → exceptions || !e.exceptional → Back g visited e parent element →
      (q.satisfied? child.state).isSome → (q.satisfied? parent.state).isSome →
      Traced g q exceptions (e.parent :: visited) e.parent parent' element' →
      Traced g q exceptions visited id parent' element'

section

variable {g : Graph} {q : Query} {exceptions : Bool} {visited : List NodeId} {id : NodeId}
  {parent : Node} {element : Element}

theorem Traced.exists_edge (h : Traced g q exceptions visited id parent element) :
    ∃ child e, g.node? id = some child ∧ e ∈ child.parents := by
  cases h with
  | learned hnode he => exact ⟨_, _, hnode, he⟩
  | held hnode he => exact ⟨_, _, hnode, he⟩

theorem Traced.element_eq (h : Traced g q exceptions visited id parent element) :
    g.flow.element parent.point = .ok element := by
  induction h with
  | learned _ _ _ hback => exact hback.element
  | held _ _ _ _ _ _ _ ih => exact ih

end

namespace Search

variable {g : Graph} {q : Query} {o : Options} {exceptions : Bool} {s t : Search}

theorem mem_edges {child : Node} {e : Edge} :
    e ∈ edges exceptions child ↔ e ∈ child.parents ∧ (exceptions || !e.exceptional) := by
  rw [edges, List.mem_filter, List.mem_reverse]

@[simp] theorem node_extend (g : Graph) (q : Query) (c : Chain) (child parent : Node) (id : NodeId)
    (element : Element) : (extend g q c child parent id element).node = id := by
  unfold extend
  dsimp only
  split
  · split <;> rfl
  · rfl

@[simp] theorem visited_extend (g : Graph) (q : Query) (c : Chain) (child parent : Node)
    (id : NodeId) (element : Element) :
    (extend g q c child parent id element).visited = id :: c.visited := by
  unfold extend
  dsimp only
  split
  · split <;> rfl
  · rfl

/-- Following all edges from a chain that can be continued to where the query got satisfied gives a
flow that says where, or a longer chain of the same kind. -/
theorem exists_location_or_pending {c : Chain} {child parent : Node} {element : Element}
    (htraced : Traced g q exceptions c.visited c.node parent element)
    (hchild : g.node? c.node = some child)
    (hfollow : followAll g q o c child (edges exceptions child) s = (t, true)) :
    (∃ f ∈ t.flows, ∃ l ∈ f, l.pos = element.pos ∧ l.point? = some parent.point) ∨
      ∃ c' ∈ t.pending, Traced g q exceptions c'.visited c'.node parent element := by
  cases htraced with
  | learned hnode he hkind hback hsat hunsat =>
    cases hchild.symm.trans hnode
    obtain ⟨s', t', _, hfollowed, ht'⟩ := followed_of_followAll hfollow (mem_edges.2 ⟨he, hkind⟩)
    cases hfollowed with
    | dead hdead => exact (hdead _ _ hback).elim
    | extended hback' himplies =>
      obtain ⟨rfl, rfl⟩ := hback.unique hback'
      rw [hunsat] at himplies
      exact absurd (himplies hsat) Bool.false_ne_true
    | @learned parent' element' constraint hback' =>
      obtain ⟨hparent, helement⟩ := hback.unique hback'
      obtain ⟨f, hf, hl⟩ := exists_mem_finish g q c s'.flows
        (List.mem_cons_self (a := learnedAt q c child parent' element' constraint)
          (l := c.locations))
      exact .inl ⟨f, ht'.flows hf, _, hl, congrArg Element.pos helement,
        congrArg some (congrArg Node.point hparent)⟩
  | held hnode he hkind hback hsat hsat' htraced =>
    cases hchild.symm.trans hnode
    obtain ⟨s', t', _, hfollowed, ht'⟩ := followed_of_followAll hfollow (mem_edges.2 ⟨he, hkind⟩)
    cases hfollowed with
    | dead hdead => exact (hdead _ _ hback).elim
    | learned hback' _ hunsat =>
      obtain ⟨rfl, rfl⟩ := hback.unique hback'
      rw [hunsat] at hsat'
      exact absurd hsat' Bool.false_ne_true
    | extended hback' _ =>
      obtain ⟨rfl, rfl⟩ := hback.unique hback'
      refine .inr ⟨_, ht'.pending (.head _), ?_⟩
      rw [visited_extend, node_extend]
      exact htraced

theorem Ends.exists_location {result : List Flow} (h : Ends g q o exceptions s result) {c : Chain}
    (hc : c ∈ s.pending) {parent : Node} {element : Element}
    (htraced : Traced g q exceptions c.visited c.node parent element) :
    ∃ f ∈ result, ∃ l ∈ f, l.pos = element.pos ∧ l.point? = some parent.point := by
  induction h generalizing c with
  | nil => contradiction
  | missing hnone _ ih =>
    rcases List.mem_cons.1 hc with rfl | hc
    · obtain ⟨child, _, hnode, _⟩ := htraced.exists_edge
      cases hnone.symm.trans hnode
    · exact ih hc htraced
  | entry hchild hempty _ ih =>
    rcases List.mem_cons.1 hc with rfl | hc
    · obtain ⟨_, e, hnode, he⟩ := htraced.exists_edge
      cases hchild.symm.trans hnode
      rw [hempty] at he
      contradiction
    · exact ih hc htraced
  | @follow c' rest flows steps child next result hchild _ hfollow hrest ih =>
    rcases List.mem_cons.1 hc with rfl | hc
    · rcases exists_location_or_pending htraced hchild hfollow with
        ⟨f, hf, hl⟩ | ⟨c', hc', htraced'⟩
      · exact ⟨f, hrest.subset hf, hl⟩
      · exact ih hc' htraced'
    · have hextends := followAll_extends g q o c' child (edges exceptions child) ⟨rest, flows, steps⟩
      rw [hfollow] at hextends
      exact ih (hextends.pending hc) htraced

/-- What a location of a flow stands for: a parameter, an assignment, or the element that made the
query satisfied. -/
inductive Explains (g : Graph) (q : Query) (exceptions : Bool) (start : NodeId) (l : Location) : Prop
  | parameter : l.point? = none → Explains g q exceptions start l
  | assigned {p var pos} : l.point? = some p →
      g.flow.element p = .ok (.instruction (.assign var pos)) → Explains g q exceptions start l
  | learned {parent element} : Traced g q exceptions [start] start parent element →
      l.pos = element.pos → l.point? = some parent.point → Explains g q exceptions start l

structure Valid (g : Graph) (q : Query) (exceptions : Bool) (start : NodeId) (c : Chain) : Prop where
  locations : ∀ l ∈ c.locations, Explains g q exceptions start l
  satisfied : ∀ n, g.node? c.node = some n → (q.satisfied? n.state).isSome
  traced : ∀ {parent element}, Traced g q exceptions c.visited c.node parent element →
    Traced g q exceptions [start] start parent element

structure Sound (g : Graph) (q : Query) (exceptions : Bool) (start : NodeId) (s : Search) :
    Prop where
  flows : ∀ f ∈ s.flows, ∀ l ∈ f, Explains g q exceptions start l
  pending : ∀ c ∈ s.pending, Valid g q exceptions start c

variable {start : NodeId} {c : Chain} {child : Node} {e : Edge}

theorem explains_finish {locations : Flow} {flows : List Flow}
    (hflows : ∀ f ∈ flows, ∀ l ∈ f, Explains g q exceptions start l)
    (hlocations : ∀ l ∈ locations, Explains g q exceptions start l) :
    ∀ f ∈ finish g q c locations flows, ∀ l ∈ f, Explains g q exceptions start l := by
  refine forall_mem_finish hflows fun _ l hl => ?_
  rcases (mem_flowOf g q c).2 hl with hl | hnone
  · exact hlocations l hl
  · exact .parameter hnone

theorem locations_extend {parent : Node} {id : NodeId} {element : Element} {l : Location}
    (hl : l ∈ (extend g q c child parent id element).locations) :
    l ∈ c.locations ∨
      ∃ var pos, element = .instruction (.assign var pos) ∧ l.point? = some parent.point := by
  unfold extend at hl
  dsimp only at hl
  split at hl
  next var pos =>
    split at hl
    · rcases List.mem_cons.1 hl with rfl | hl
      · exact .inr ⟨var, pos, rfl, rfl⟩
      · exact .inl hl
    · exact .inl hl
  next => exact .inl hl

theorem Followed.sound (h : Followed g q c child e s t) (hs : Sound g q exceptions start s)
    (hc : Valid g q exceptions start c) (hchild : g.node? c.node = some child)
    (he : e ∈ edges exceptions child) : Sound g q exceptions start t := by
  obtain ⟨he, hkind⟩ := mem_edges.1 he
  have hsatisfied := hc.satisfied child hchild
  cases h with
  | dead => exact hs
  | learned hback hsat hunsat =>
    refine ⟨explains_finish hs.flows fun l hl => ?_, hs.pending⟩
    rcases List.mem_cons.1 hl with rfl | hl
    · exact .learned (hc.traced (.learned hchild he hkind hback hsatisfied hunsat)) rfl rfl
    · exact hc.locations l hl
  | extended hback himplies =>
    have hsatisfied' := himplies hsatisfied
    refine ⟨hs.flows, fun c' hc' => ?_⟩
    rcases List.mem_cons.1 hc' with rfl | hc'
    · refine ⟨fun l hl => ?_, fun n hn => ?_, fun htraced => ?_⟩
      · rcases locations_extend hl with hl | ⟨var, pos, rfl, hpoint⟩
        · exact hc.locations l hl
        · exact .assigned hpoint hback.element
      · rw [node_extend] at hn
        cases hback.node.symm.trans hn
        exact hsatisfied'
      · rw [node_extend, visited_extend] at htraced
        exact hc.traced (.held hchild he hkind hback hsatisfied hsatisfied' htraced)
    · exact hs.pending c' hc'

theorem followAll_sound {es : List Edge} (hs : Sound g q exceptions start s)
    (hc : Valid g q exceptions start c) (hchild : g.node? c.node = some child)
    (hes : ∀ e ∈ es, e ∈ edges exceptions child) :
    Sound g q exceptions start (followAll g q o c child es s).1 := by
  apply followAll_induction
  · intro t n ht
    exact ⟨ht.flows, ht.pending⟩
  · intro e t u he ht _ hfollowed
    exact hfollowed.sound ht hc hchild (hes e he)
  · exact hs

theorem Ends.explains {result : List Flow} (h : Ends g q o exceptions s result)
    (hs : Sound g q exceptions start s) :
    ∀ f ∈ result, ∀ l ∈ f, Explains g q exceptions start l := by
  induction h with
  | nil => exact hs.flows
  | missing _ _ ih => exact ih ⟨hs.flows, fun c hc => hs.pending c (.tail _ hc)⟩
  | entry _ _ _ ih =>
    exact ih ⟨explains_finish hs.flows (hs.pending _ (.head _)).locations,
      fun c hc => hs.pending c (.tail _ hc)⟩
  | @follow c rest flows steps child next result hchild _ hfollow _ ih =>
    have hrest : Sound g q exceptions start ⟨rest, flows, steps⟩ :=
      ⟨hs.flows, fun c hc => hs.pending c (.tail _ hc)⟩
    have hsound := followAll_sound (o := o) hrest (hs.pending c (.head _)) hchild fun _ he => he
    rw [hfollow] at hsound
    exact ih hsound

end Search

end Flow

namespace Graph

open Pathwise.Flow Pathwise.Flow.Search

def searchFrom (id : NodeId) (q : Query) : Search :=
  { pending := [⟨id, [], [id], if q.symbols.isEmpty then none else some q.symbols⟩] }

variable {g : Graph} {id : NodeId} {q : Query} {o : Options} {exceptions : Bool} {n : Node}

/-- The flows of a value, where no limit stops the search, lead back to all elements that made it
satisfy the query, and but for parameters and assignments to nothing else. -/
theorem flows_traced (hn : g.node? id = some n) (hsatisfied : (q.satisfied? n.state).isSome)
    (hlimits : completes g q o exceptions (searchFrom id q)) :
    (∀ {parent element}, Traced g q exceptions [id] id parent element →
        ∃ f ∈ g.flows id q o exceptions, ∃ l ∈ f,
          l.pos = element.pos ∧ l.point? = some parent.point) ∧
      ∀ f ∈ g.flows id q o exceptions, ∀ l ∈ f, Explains g q exceptions id l := by
  have hends : Ends g q o exceptions (searchFrom id q) (g.flows id q o exceptions) :=
    ends_of_completes hlimits
  refine ⟨fun htraced => hends.exists_location (.head _) htraced, hends.explains ⟨?_, ?_⟩⟩
  · exact List.forall_mem_nil _
  · intro c hc
    cases List.mem_singleton.1 hc
    refine ⟨List.forall_mem_nil _, fun m hm => ?_, fun htraced => htraced⟩
    cases hn.symm.trans hm
    exact hsatisfied

end Graph

end Pathwise
