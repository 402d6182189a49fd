import Pathwise.Proofs.EntryFlows

namespace Pathwise

namespace Flow.Search

section

variable {g : Graph} {q : Query} {o o' : Options} {exceptions : Bool} {s t : Search} {c : Chain}
  {child : Node} {e : Edge}

theorem prefix_finish (g : Graph) (q : Query) (c : Chain) (locations : Flow) (flows : List Flow) :
    flows <+: finish g q c locations flows := by
  rcases finish_cases g q c locations flows with ⟨heq, _⟩ | ⟨heq, _⟩
  · simp only [heq, List.prefix_rfl]
  · simp only [heq, List.prefix_append]

theorem Followed.prefix_flows (h : Followed g q c child e s t) : s.flows <+: t.flows := by
  cases h with
  | dead | extended => exact List.prefix_rfl
  | learned => exact prefix_finish _ _ _ _ _

theorem prefix_followAll (g : Graph) (q : Query) (o : Options) (c : Chain) (child : Node)
    (es : List Edge) (s : Search) : s.flows <+: (followAll g q o c child es s).1.flows := by
  apply followAll_induction (I := fun t => s.flows <+: t.flows)
  · intro t n ht
    exact ht
  · intro e t u _ ht _ hfollowed
    exact ht.trans hfollowed.prefix_flows
  · exact List.prefix_rfl

theorem prefix_run (g : Graph) (q : Query) (o : Options) (exceptions : Bool) (s : Search) :
    s.flows <+: run g q o exceptions s := by
  obtain ⟨t, ht, hrun⟩ : ∃ t : Search, s.flows <+: t.flows ∧ run g q o exceptions s = t.flows := by
    apply run_induction (I := fun t => s.flows <+: t.flows)
    · intro c rest flows steps _ hs
      exact hs
    · intro c rest flows steps child _ _ hs _
      exact hs.trans (prefix_finish _ _ _ _ _)
    · intro c rest flows steps child _ hs
      exact hs.trans (prefix_followAll _ _ _ _ _ _ ⟨rest, flows, steps⟩)
    · exact List.prefix_rfl
  rw [hrun]
  exact ht

structure Tidy (o : Options) (flows : List Flow) : Prop where
  nodup : flows.Nodup
  length_le : flows.length ≤ o.maxFlows

theorem tidy_finish {flows : List Flow} (h : Tidy o flows) (hlimit : flows.length < o.maxFlows)
    (g : Graph) (q : Query) (c : Chain) (locations : Flow) :
    Tidy o (finish g q c locations flows) := by
  refine ⟨?_, Nat.le_trans (length_finish_le g q c locations flows) hlimit⟩
  rcases finish_cases g q c locations flows with ⟨heq, _⟩ | ⟨heq, _, hnew⟩
  · rw [heq]
    exact h.nodup
  · rw [heq, ← List.concat_eq_append, List.nodup_concat]
    exact ⟨hnew, h.nodup⟩

theorem tidy_followAll (h : Tidy o s.flows) (g : Graph) (q : Query) (c : Chain) (child : Node)
    (es : List Edge) : Tidy o (followAll g q o c child es s).1.flows := by
  apply followAll_induction (I := fun t => Tidy o t.flows)
  · intro t n ht
    exact ht
  · intro e t u _ ht hlimit hfollowed
    cases hfollowed with
    | dead | extended => exact ht
    | learned => exact tidy_finish ht hlimit g q c _
  · exact h

theorem tidy_run (h : Tidy o s.flows) (g : Graph) (q : Query) (exceptions : Bool) :
    Tidy o (run g q o exceptions s) := by
  obtain ⟨t, ht, hrun⟩ : ∃ t : Search, Tidy o t.flows ∧ run g q o exceptions s = t.flows := by
    apply run_induction (I := fun t => Tidy o t.flows)
    · intro c rest flows steps _ hs
      exact hs
    · intro c rest flows steps child _ _ hs hlimit
      exact tidy_finish hs hlimit g q c c.locations
    · intro c rest flows steps child _ hs
      exact tidy_followAll (s := ⟨rest, flows, steps⟩) hs g q c child _
    · exact h
  rw [hrun]
  exact ht

structure Widens (o o' : Options) : Prop where
  flows : o.maxFlows ≤ o'.maxFlows
  steps : o.maxFlowSteps ≤ o'.maxFlowSteps

/-- What is found within the limits of `o`, against what is found within those of `o'`: the same, or
the beginning of it where a limit stopped the search that is lower in `o`. -/
inductive Cut (o o' : Options) (found : List Flow) : List Flow → Prop
  | nowhere : Cut o o' found found
  | limited {found'} : found <+: found' →
      o.maxFlows ≤ found.length ∨ o.maxFlowSteps < o'.maxFlowSteps → Cut o o' found found'

theorem Cut.isPrefix {found found' : List Flow} (h : Cut o o' found found') : found <+: found' := by
  cases h with
  | nowhere => exact List.prefix_rfl
  | limited h _ => exact h

theorem followAll_cut (h : Widens o o') (g : Graph) (q : Query) (c : Chain) (child : Node)
    (es : List Edge) (s : Search) :
    followAll g q o' c child es s = followAll g q o c child es s ∨
      (followAll g q o c child es s).2 = false ∧
        (followAll g q o c child es s).1.flows <+: (followAll g q o' c child es s).1.flows ∧
        (o.maxFlows ≤ (followAll g q o c child es s).1.flows.length ∨
          o.maxFlowSteps < o'.maxFlowSteps) := by
  obtain ⟨hflows, hsteps⟩ := h
  induction es generalizing s with
  | nil => exact .inl rfl
  | cons e es ih =>
    have hkept := prefix_followAll g q o' c child (e :: es) s
    by_cases hfull : o.maxFlows ≤ s.flows.length
    · have hstop : followAll g q o c child (e :: es) s = (s, false) := by
        rw [followAll, if_pos hfull]
      rw [hstop]
      exact .inr ⟨rfl, hkept, .inl hfull⟩
    have hfull' : ¬ o'.maxFlows ≤ s.flows.length := by omega
    by_cases hlast : s.steps + 1 > o.maxFlowSteps
    · have hstop : followAll g q o c child (e :: es) s = (s, false) := by
        rw [followAll, if_neg hfull, if_pos hlast]
      rw [hstop]
      by_cases hlast' : s.steps + 1 > o'.maxFlowSteps
      · left
        rw [followAll, if_neg hfull', if_pos hlast']
      · exact .inr ⟨rfl, hkept, .inr (by omega)⟩
    · have hlast' : ¬ s.steps + 1 > o'.maxFlowSteps := by omega
      simp only [followAll, if_neg hfull', if_neg hlast', if_neg hfull, if_neg hlast]
      exact ih _

theorem followAll_prefix_run {rest : List Chain} {flows : List Flow} {steps : Nat}
    (hlimit : ¬ o.maxFlows ≤ flows.length) (hnode : g.node? c.node = some child)
    (hne : ¬ child.parents.isEmpty) :
    (followAll g q o c child (edges exceptions child) ⟨rest, flows, steps⟩).1.flows <+:
      run g q o exceptions ⟨c :: rest, flows, steps⟩ := by
  by_cases hall : (followAll g q o c child (edges exceptions child) ⟨rest, flows, steps⟩).2
  · rw [run_of_followed hlimit hnode hne hall]
    exact prefix_run _ _ _ _ _
  · simp only [run_of_stopped hlimit hnode hne hall, List.prefix_rfl]

/-- With more room a search finds the same flows, except where a limit stopped it. -/
theorem run_cut (h : Widens o o') (g : Graph) (q : Query) (exceptions : Bool) (s : Search) :
    Cut o o' (run g q o exceptions s) (run g q o' exceptions s) := by
  have hwider {flows : List Flow} (hlimit : ¬ o.maxFlows ≤ flows.length) :
      ¬ o'.maxFlows ≤ flows.length := fun h' => hlimit (Nat.le_trans h.flows h')
  induction s using run.induct g q o exceptions with
  | case1 flows steps =>
    rw [run, run]
    exact .nowhere
  | case2 c rest flows steps hfull =>
    rw [run_of_full hfull]
    exact .limited (prefix_run g q o' exceptions ⟨c :: rest, flows, steps⟩) (.inl hfull)
  | case3 c rest flows steps hlimit hnode ih =>
    rw [run_of_missing hlimit hnode, run_of_missing (hwider hlimit) hnode]
    exact ih
  | case4 c rest flows steps hlimit child hnode hempty ih =>
    rw [run_of_entry hlimit hnode hempty, run_of_entry (hwider hlimit) hnode hempty]
    exact ih
  | case5 c rest flows steps hlimit child hnode hne es next hall ih =>
    rw [run_of_followed hlimit hnode hne hall]
    rcases followAll_cut h g q c child (edges exceptions child) ⟨rest, flows, steps⟩ with
      hsame | ⟨hstopped, _⟩
    · rw [run_of_followed (hwider hlimit) hnode hne (hsame ▸ hall), hsame]
      exact ih
    · cases hall.symm.trans hstopped
  | case6 c rest flows steps hlimit child hnode hne es next hall =>
    rw [run_of_stopped hlimit hnode hne hall]
    rcases followAll_cut h g q c child (edges exceptions child) ⟨rest, flows, steps⟩ with
      hsame | ⟨_, hkept, hreached⟩
    · rw [run_of_stopped (hwider hlimit) hnode hne (hsame ▸ hall), hsame]
      exact .nowhere
    · exact .limited (hkept.trans (followAll_prefix_run (hwider hlimit) hnode hne)) hreached

end

/-- Going back from a chain by edges of the kind that is followed, a search can come to tell
`flow`. -/
inductive Leads (g : Graph) (q : Query) (exceptions : Bool) : Chain → Flow → Prop
  | entry {c child} : g.node? c.node = some child → child.parents = [] →
      Leads g q exceptions c (flowOf g q c c.locations)
  | learned {c child e parent element constraint} : g.node? c.node = some child →
      e ∈ edges exceptions child → Back g c.visited e parent element →
      q.satisfied? child.state = some constraint → q.satisfied? parent.state = none →
      Leads g q exceptions c
        (flowOf g q c (learnedAt q c child parent element constraint :: c.locations))
  | extended {c child e parent element flow} : g.node? c.node = some child →
      e ∈ edges exceptions child → Back g c.visited e parent element →
      ((q.satisfied? child.state).isSome → (q.satisfied? parent.state).isSome) →
      Leads g q exceptions (extend g q c child parent e.parent element) flow →
      Leads g q exceptions c flow

section

variable {g : Graph} {q : Query} {o : Options} {exceptions : Bool} {s t : Search} {c : Chain}
  {child : Node} {e : Edge} {P : Flow → Prop} {flow : Flow}

theorem Leads.with_exceptions (h : Leads g q exceptions c flow) :
    Leads g q true c flow := by
  have hedges {child : Node} {e : Edge} (he : e ∈ edges exceptions child) : e ∈ edges true child :=
    mem_edges.2 ⟨(mem_edges.1 he).1, rfl⟩
  induction h with
  | entry hnode hempty => exact .entry hnode hempty
  | learned hnode he hback hsat hunsat => exact .learned hnode (hedges he) hback hsat hunsat
  | extended hnode he hback himplies _ ih => exact .extended hnode (hedges he) hback himplies ih

theorem Leads.exists_node (h : Leads g q exceptions c flow) :
    ∃ child, g.node? c.node = some child := by
  cases h with
  | entry hnode | learned hnode | extended hnode => exact ⟨_, hnode⟩

theorem Leads.eq_of_entry (h : Leads g q exceptions c flow) (hnode : g.node? c.node = some child)
    (hempty : child.parents = []) : flow = flowOf g q c c.locations := by
  have hnone : ∀ e, e ∉ edges exceptions child := fun e he =>
    List.not_mem_nil (hempty ▸ (mem_edges.1 he).1)
  cases h with
  | entry => rfl
  | learned hnode' he | extended hnode' he =>
    cases hnode.symm.trans hnode'
    exact absurd he (hnone _)

structure Promises (g : Graph) (q : Query) (exceptions : Bool) (P : Flow → Prop) (s : Search) :
    Prop where
  flows : ∀ f ∈ s.flows, P f
  pending : ∀ c ∈ s.pending, ∀ f, f ≠ [] → Leads g q exceptions c f → P f

theorem Promises.rest {rest : List Chain} {flows : List Flow} {steps : Nat}
    (h : Promises g q exceptions P ⟨c :: rest, flows, steps⟩) :
    Promises g q exceptions P ⟨rest, flows, steps⟩ :=
  ⟨h.flows, fun c' hc' => h.pending c' (.tail _ hc')⟩

theorem Promises.followed (hs : Promises g q exceptions P s)
    (hc : ∀ f, f ≠ [] → Leads g q exceptions c f → P f) (hnode : g.node? c.node = some child)
    (he : e ∈ edges exceptions child) (h : Followed g q c child e s t) :
    Promises g q exceptions P t := by
  cases h with
  | dead => exact hs
  | learned hback hsat hunsat =>
    refine ⟨forall_mem_finish hs.flows fun hne => ?_, hs.pending⟩
    exact hc _ hne (.learned hnode he hback hsat hunsat)
  | extended hback himplies =>
    refine ⟨hs.flows, List.forall_mem_cons.2 ⟨fun f hne hleads => ?_, hs.pending⟩⟩
    exact hc f hne (.extended hnode he hback himplies hleads)

theorem Promises.run (hs : Promises g q exceptions P s) (o : Options) :
    ∀ f ∈ run g q o exceptions s, P f := by
  obtain ⟨t, ht, hrun⟩ :
      ∃ t, Promises g q exceptions P t ∧ Search.run g q o exceptions s = t.flows := by
    apply run_induction
    · intro c rest flows steps _ hs
      exact hs.rest
    · intro c rest flows steps child hnode hempty hs _
      refine ⟨forall_mem_finish hs.flows fun hne => ?_, hs.rest.pending⟩
      exact hs.pending c (.head _) _ hne (.entry hnode hempty)
    · intro c rest flows steps child hnode hs
      apply followAll_induction (I := Promises g q exceptions P)
      · intro s n hs
        exact ⟨hs.flows, hs.pending⟩
      · intro e s t he ht _ hfollowed
        exact ht.followed (hs.pending c (.head _)) hnode he hfollowed
      · exact hs.rest
    · exact hs
  rw [hrun]
  exact ht.flows

/-- Where all edges of a chain are followed, what it leads to is found or still to be found. -/
theorem mem_or_pending_of_leads (hleads : Leads g q exceptions c flow) (hne : flow ≠ [])
    (hnode : g.node? c.node = some child) (hparents : child.parents ≠ [])
    (hfollow : followAll g q o c child (edges exceptions child) s = (t, true)) :
    flow ∈ t.flows ∨ ∃ c' ∈ t.pending, Leads g q exceptions c' flow := by
  cases hleads with
  | entry hnode' hempty =>
    cases hnode.symm.trans hnode'
    exact absurd hempty hparents
  | learned hnode' he hback hsat hunsat =>
    cases hnode.symm.trans hnode'
    obtain ⟨s', t', _, hfollowed, ht'⟩ := followed_of_followAll hfollow he
    cases hfollowed with
    | dead hdead => exact (hdead _ _ hback).elim
    | learned hback' hsat' _ =>
      obtain ⟨rfl, rfl⟩ := hback.unique hback'
      cases hsat.symm.trans hsat'
      exact .inl (ht'.flows ((mem_finish g q c).2 (.inr ⟨hne, rfl⟩)))
    | extended hback' himplies =>
      obtain ⟨rfl, rfl⟩ := hback.unique hback'
      rw [hsat, hunsat] at himplies
      exact absurd (himplies rfl) Bool.false_ne_true
  | extended hnode' he hback himplies hleads =>
    cases hnode.symm.trans hnode'
    obtain ⟨s', t', _, hfollowed, ht'⟩ := followed_of_followAll hfollow he
    cases hfollowed with
    | dead hdead => exact (hdead _ _ hback).elim
    | learned hback' hsat hunsat =>
      obtain ⟨rfl, rfl⟩ := hback.unique hback'
      rw [hsat, hunsat] at himplies
      exact absurd (himplies rfl) Bool.false_ne_true
    | extended hback' _ =>
      obtain ⟨rfl, rfl⟩ := hback.unique hback'
      exact .inr ⟨_, ht'.pending (.head _), hleads⟩

/-- Where no limit is in its way, a search finds all flows that its chains lead to. -/
theorem Ends.mem_of_leads {result : List Flow} (h : Ends g q o exceptions s result)
    (hc : c ∈ s.pending) (hleads : Leads g q exceptions c flow) (hne : flow ≠ []) :
    flow ∈ result := by
  induction h generalizing c with
  | nil => contradiction
  | missing hnone _ ih =>
    rcases List.mem_cons.1 hc with rfl | hc
    · obtain ⟨child, hnode⟩ := hleads.exists_node
      cases hnone.symm.trans hnode
    · exact ih hc hleads
  | entry hchild hempty hrest ih =>
    rcases List.mem_cons.1 hc with rfl | hc
    · obtain rfl := hleads.eq_of_entry hchild hempty
      exact hrest.subset ((mem_finish g q c).2 (.inr ⟨hne, rfl⟩))
    · exact ih hc hleads
  | @follow c' rest flows steps child next result hchild hparents hfollow hrest ih =>
    rcases List.mem_cons.1 hc with rfl | hc
    · rcases mem_or_pending_of_leads hleads hne hchild hparents hfollow with hf | ⟨c', hc', hleads'⟩
      · exact hrest.subset hf
      · exact ih hc' hleads'
    · have hextends :=
        followAll_extends g q o c' child (edges exceptions child) ⟨rest, flows, steps⟩
      rw [hfollow] at hextends
      exact ih (hextends.pending hc) hleads

end

end Flow.Search

namespace Graph

open Pathwise.Flow Pathwise.Flow.Search

variable {o o' : Options} {exceptions : Bool}

theorem tidy_flows (g : Graph) (start : NodeId) (q : Query) (o : Options) (exceptions : Bool) :
    Tidy o (g.flows start q o exceptions) :=
  tidy_run ⟨List.nodup_nil, Nat.zero_le _⟩ g q exceptions

theorem flows_cut (h : Widens o o') (g : Graph) (start : NodeId) (q : Query) (exceptions : Bool) :
    Cut o o' (g.flows start q o exceptions) (g.flows start q o' exceptions) :=
  run_cut h g q exceptions _

theorem flows_eq_take (h : Widens o o') (hsteps : o.maxFlowSteps = o'.maxFlowSteps) (g : Graph)
    (start : NodeId) (q : Query) (exceptions : Bool) :
    g.flows start q o exceptions = (g.flows start q o' exceptions).take o.maxFlows := by
  have hlength := (g.tidy_flows start q o exceptions).length_le
  have hcut := g.flows_cut h start q exceptions
  generalize g.flows start q o' exceptions = found at hcut ⊢
  cases hcut with
  | nowhere => rw [List.take_of_length_le hlength]
  | limited hkept hreached =>
    have hfull : o.maxFlows ≤ (g.flows start q o exceptions).length :=
      hreached.resolve_right (Nat.not_lt_of_ge (Nat.le_of_eq hsteps.symm))
    have htake := List.prefix_iff_eq_take.1 hkept
    rwa [Nat.le_antisymm hlength hfull] at htake

/-- What is found along chains without exceptional edges is found where these are followed too. -/
theorem flows_subset (g : Graph) (start : NodeId) (q : Query)
    (hlimits : completes g q o true (searchFrom start q)) :
    g.flows start q o' exceptions ⊆ g.flows start q o true := by
  have hends : Ends g q o true (searchFrom start q) (g.flows start q o true) :=
    ends_of_completes hlimits
  have hfound : Promises g q exceptions (· ∈ g.flows start q o true) (searchFrom start q) := by
    refine ⟨List.forall_mem_nil _, fun c hc f hne hleads => ?_⟩
    exact hends.mem_of_leads hc hleads.with_exceptions hne
  exact hfound.run o'

/-- Limits only truncate. Of the flows that a search finds, asking for fewer leaves the first ones,
and looking at fewer edges leaves a beginning; no flow is found twice. Leaving out exceptional edges
only removes flows, if no limit stops the search that follows them. -/
theorem flows_truncated (g : Graph) (start : NodeId) (q : Query) (o : Options) :
    (∀ exceptions m n, m ≤ n →
        g.flows start q { o with maxFlows := m } exceptions =
          (g.flows start q { o with maxFlows := n } exceptions).take m) ∧
      (∀ exceptions m n, m ≤ n →
        g.flows start q { o with maxFlowSteps := m } exceptions <+:
          g.flows start q { o with maxFlowSteps := n } exceptions) ∧
      (∀ exceptions, (g.flows start q o exceptions).Nodup) ∧
      (completes g q o true (searchFrom start q) →
        g.flows start q o false ⊆ g.flows start q o true) := by
  refine ⟨fun exceptions m n hle => ?_, fun exceptions m n hle => ?_, fun exceptions => ?_, ?_⟩
  · have hwidens : Widens { o with maxFlows := m } { o with maxFlows := n } := ⟨hle, Nat.le_refl _⟩
    exact flows_eq_take hwidens rfl g start q exceptions
  · have hwidens : Widens { o with maxFlowSteps := m } { o with maxFlowSteps := n } :=
      ⟨Nat.le_refl _, hle⟩
    exact (flows_cut hwidens g start q exceptions).isPrefix
  · exact (g.tidy_flows start q o exceptions).nodup
  · exact g.flows_subset start q

end Graph

/-- A variable is set to null in three places, one of them after an exception. -/
def ControlFlow.fallback : ControlFlow where
  routine := {
    name := "fallback"
    entry := 0
    blocks := [
      { id := 0
        instructions := [.invoke ⟨"A", "open", [], .boolean, true⟩ false [] (.source 1 1)]
        terminator := .branch 2 3 (.source 1 1)
        handlers := [1] },
      { id := 1
        instructions :=
          [.pop (.source 2 1), .literal .null (.source 2 5), .assign "x" (.source 2 1)]
        terminator := .goto 4 },
      { id := 2
        instructions := [.literal .null (.source 3 5), .assign "x" (.source 3 1)]
        terminator := .goto 4 },
      { id := 3
        instructions := [.literal .null (.source 4 5), .assign "x" (.source 4 1)]
        terminator := .goto 4 },
      { id := 4
        instructions := [.read "x" (.source 5 8)]
        terminator := .ret true (.source 5 1) }] }
  nodup := by decide
  entry_mem := by decide
  targets_mem _ hb _ hid := Routine.missingTarget?_eq_none (by decide) hb hid

def Flow.Query.nullConstant (var : String) : Query where
  value := .null
  symbols := [var]
  accepts := (· == .null)
  domains := [.object]

open Pathwise.Flow in
theorem flows_truncated_fallback :
    ∃ g, (explore [] {} .fallback).graph? = some g ∧
      (g.flows 8 (.nullConstant "x") {} true).length = 3 ∧
      (g.flows 8 (.nullConstant "x") { maxFlows := 2 } true).length = 2 ∧
      g.flows 8 (.nullConstant "x") { maxFlows := 2 } true =
        (g.flows 8 (.nullConstant "x") {} true).take 2 ∧
      (g.flows 8 (.nullConstant "x") { maxFlowSteps := 9 } true).length = 1 ∧
      g.flows 8 (.nullConstant "x") { maxFlowSteps := 9 } true <+:
        g.flows 8 (.nullConstant "x") {} true ∧
      (g.flows 8 (.nullConstant "x") {} false).length = 2 ∧
      Search.completes g (.nullConstant "x") {} true (Graph.searchFrom 8 (.nullConstant "x")) ∧
      g.flows 8 (.nullConstant "x") {} false ⊆ g.flows 8 (.nullConstant "x") {} true := by
  have hfacts : (explore [] {} .fallback).graph?.any fun g =>
      (g.flows 8 (.nullConstant "x") {} true).length = 3 ∧
      (g.flows 8 (.nullConstant "x") { maxFlows := 2 } true).length = 2 ∧
      (g.flows 8 (.nullConstant "x") { maxFlowSteps := 9 } true).length = 1 ∧
      (g.flows 8 (.nullConstant "x") {} false).length = 2 ∧
      Search.completes g (.nullConstant "x") {} true
        (Graph.searchFrom 8 (.nullConstant "x")) := by
    decide +kernel
  obtain ⟨g, hg, hfacts⟩ := (Option.any_eq_true _ _).1 hfacts
  obtain ⟨hall, htwo, hone, hregular, hcompletes⟩ := of_decide_eq_true hfacts
  obtain ⟨htake, hcut, _, hsubset⟩ := g.flows_truncated 8 (.nullConstant "x") {}
  exact ⟨g, hg, hall, htwo, htake true 2 20 (by decide), hone, hcut true 9 10000 (by decide),
    hregular, hcompletes, hsubset hcompletes⟩

end Pathwise
