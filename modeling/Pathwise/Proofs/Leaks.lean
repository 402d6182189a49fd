import Pathwise.Detector.UnclosedResources
import Pathwise.Proofs.Congruence
import Pathwise.Proofs.Edges
import Pathwise.Proofs.Effects
import Pathwise.Proofs.Faults
import Pathwise.Proofs.Fresh
import Pathwise.Proofs.Journal
import Pathwise.Proofs.Tracing

namespace Pathwise

open Detector UnclosedResources Exploration

namespace Detector.UnclosedResources

def Config.opens (config : Config) (element : Element) : Bool :=
  createsResource config element ||
    match element with
    | .instruction (.invoke method receiver _ _) => receiver && config.openings.accepts method
    | _ => false

def query (config : Config) (v : Value) : Flow.Query :=
  { value := v, accepts := (· == opened config.id), domains := [.custom config.id] }

/-- Nothing is known in `t` that is not known in `s` about which resources are open and which values
are the same. -/
structure OpensNone (id : Nat) (s t : State) : Prop where
  opened : ∀ {v}, t.constraint? v (.custom id) = some (opened id) →
    s.constraint? v (.custom id) = some (opened id)
  relations : ∀ {r}, t.relations.has r → s.relations.has r

variable {config : Config} {id : Nat} {s t u : State} {v : Value}

theorem OpensNone.refl (id : Nat) (s : State) : OpensNone id s s := ⟨(·), (·)⟩

theorem OpensNone.trans (h : OpensNone id s t) (h' : OpensNone id t u) : OpensNone id s u :=
  ⟨fun hv => h.opened (h'.opened hv), fun hr => h.relations (h'.relations hr)⟩

theorem satisfied_iff : ((query config v).satisfied? s).isSome ↔
    ∃ w, (w ≈ v ∨ s.relations.has ⟨.equal, v, w⟩) ∧
      s.constraint? w (.custom config.id) = some (opened config.id) := by
  have haccepts (u : Value) :
      ((([.custom config.id] : List Domain).filterMap fun d => s.constraint? u d).find?
        (· == opened config.id)).isSome ↔
      s.constraint? u (.custom config.id) = some (opened config.id) := by
    cases hu : s.constraint? u (.custom config.id) <;> simp [hu]
  simp only [query, Flow.Query.satisfied?, List.findSome?_isSome_iff, haccepts]
  constructor
  · rintro ⟨u, hu, hopen⟩
    rcases List.mem_cons.1 hu with rfl | hu
    · exact ⟨u, .inl (Setoid.refl u), hopen⟩
    · exact ⟨u, .inr (State.has_equal_iff.2 ⟨u, hu, Setoid.refl u⟩), hopen⟩
  · rintro ⟨w, hw | hw, hopen⟩
    · exact ⟨v, .head _, (State.constraint?_congr hw _).symm.trans hopen⟩
    · obtain ⟨u, hu, huw⟩ := State.has_equal_iff.1 hw
      exact ⟨u, .tail _ hu, (State.constraint?_congr huw _).trans hopen⟩

theorem OpensNone.satisfied (h : OpensNone config.id s t)
    (ht : ((query config v).satisfied? t).isSome) : ((query config v).satisfied? s).isSome := by
  obtain ⟨w, hw, hopen⟩ := satisfied_iff.1 ht
  exact satisfied_iff.2 ⟨w, hw.imp_right h.relations, h.opened hopen⟩

theorem opensNone_of_equiv (h : s ≈ t) : OpensNone id s t :=
  ⟨fun hv => (State.constraint?_of_equiv h _ _).trans hv, (State.has_of_equiv h).2⟩

theorem opensNone_cleanup (id : Nat) (s : State) : OpensNone id s s.cleanup :=
  ⟨State.constraint?_of_cleanup, State.has_of_cleanup⟩

theorem opensNone_of_eq (hconstraints : t.constraints = s.constraints)
    (hrelations : t.relations = s.relations) : OpensNone id s t := by
  refine ⟨fun hv => ?_, fun hr => hrelations ▸ hr⟩
  rw [State.constraint?, State.constraintsOf?, ← hconstraints]
  exact hv

theorem opensNone_foldl {α : Type} {f : State → α → State} (h : ∀ s a, OpensNone id s (f s a))
    (as : List α) (s : State) : OpensNone id s (as.foldl f s) := by
  induction as generalizing s with
  | nil => exact .refl id s
  | cons a as ih => exact (h s a).trans (ih _)

theorem opensNone_constrain {c : Constraint} (hc : c ≠ opened id) (s : State) (v : Value) :
    OpensNone id s (s.constrain v c) := by
  refine ⟨fun {u} hu => ?_, fun hr => State.relations_constrain s v c ▸ hr⟩
  unfold State.constrain at hu
  cases hconstrain : s.constrain? v c with
  | none =>
    rw [hconstrain] at hu
    exact hu
  | some t =>
    rw [hconstrain, Option.getD_some, State.constraint?_of_constrain? hconstrain] at hu
    split at hu
    · exact absurd (Option.some.inj hu) hc
    · exact hu

theorem opensNone_release (id : Nat) (s : State) (v : Value) (d : Domain) :
    OpensNone id s (s.release v d) := by
  refine ⟨fun {u} hu => ?_, fun hr => State.relations_release s v d ▸ hr⟩
  rw [State.constraint?_release] at hu
  split at hu
  · cases hu
  · exact hu

theorem opensNone_markClosed (id : Nat) (s : State) (v : Value) :
    OpensNone id s (markClosed id s v) := by
  refine opensNone_foldl (fun s w => ?_) _ _
  split
  · exact (opensNone_release id s w _).trans (opensNone_constrain (fun h => by cases h) _ w)
  · exact .refl id s

theorem opensNone_markAllClosed (id : Nat) (s : State) (vs : List Value) :
    OpensNone id s (markAllClosed id s vs) :=
  opensNone_foldl (opensNone_markClosed id) vs s

theorem opensNone_stateFrom {α : Type} {x : Except Failure α} {f : α → State}
    (h : ∀ a, OpensNone id s (f a)) :
    OpensNone id s ((Reaction.ofExcept (do return f (← x))).stateFrom s) := by
  cases x with
  | error e => exact .refl id s
  | ok a => exact h a

variable {w : View} {element : Element}

theorem before_opensNone (h : config.opens element = false) :
    OpensNone config.id w.state ((before config w element).stateFrom w.state) := by
  unfold before
  dsimp only
  split
  next => exact opensNone_stateFrom fun vs => opensNone_markAllClosed _ _ vs
  next method receiver arguments pos =>
    have hopening : (receiver && config.openings.accepts method) = false :=
      (Bool.or_eq_false_iff.1 h).2
    simp only [hopening, Bool.false_eq_true, if_false]
    split
    · exact opensNone_stateFrom fun v => opensNone_markClosed _ _ v
    · exact opensNone_stateFrom fun vs => opensNone_markAllClosed _ _ vs
  next => exact opensNone_stateFrom fun v => opensNone_markClosed _ _ v
  next => exact .refl _ _

theorem after_stateFrom (h : config.opens element = false) :
    (after config w element).stateFrom w.state = w.state := by
  have hcreates : createsResource config element = false := (Bool.or_eq_false_iff.1 h).1
  unfold after
  rw [if_neg (hcreates ▸ Bool.false_ne_true)]
  rfl

theorem resourceType?_of_opens (h : config.opens element) :
    ∃ type, resourceType? config element = some type := by
  cases element with
  | terminator => cases h
  | instruction i =>
    cases i with
    | newObject => exact ⟨_, rfl⟩
    | invoke =>
      simp only [resourceType?]
      split <;> exact ⟨_, rfl⟩
    | _ => cases h

end Detector.UnclosedResources

variable {config : Config} {o : Options} {x : Exploration} {id : NodeId} {m : Node}
  {element : Element} {q : Point} {s t : State} {v : Value}

theorem Executed.opensNone {i : Instruction} {supply : Supply} (h : Executed i supply s t)
    (id : Nat) : OpensNone id s t := by
  rcases h.constraints with hconstraints | ⟨_, hconstraints⟩
  · exact opensNone_of_eq hconstraints h.relations
  · refine (opensNone_constrain (fun h => by cases h) s _).trans (opensNone_of_eq hconstraints ?_)
    rw [h.relations, State.relations_constrain]

/-- Only the elements that are meant to open resources do so, and branches on which values turn out
to be the same. -/
theorem Exploration.Continues.opensNone (h : Continues [detector config] o x id m element q t)
    (hopens : config.opens element = false)
    (hbranch : ∀ trueTarget falseTarget pos,
      element ≠ .terminator (.branch trueTarget falseTarget pos)) :
    OpensNone config.id m.state t := by
  cases h with
  | branch => exact absurd rfl (hbranch _ _ _)
  | goto hbefore =>
    obtain ⟨_, rfl⟩ := Journal.consult_singleton hbefore
    exact before_opensNone (w := x.view o id m m.state) hopens
  | @next y _ _ _ _ t' _ _ _ hbefore hexecute hafter =>
    obtain ⟨_, rfl⟩ := Journal.consult_singleton hbefore
    obtain ⟨_, rfl⟩ := Journal.consult_singleton hafter
    have hbefore := before_opensNone (w := x.view o id m m.state) hopens
    have hafter := after_stateFrom (w := y.view o id m t') hopens
    refine (hbefore.trans ((Instruction.execute_executed hexecute).opensNone _)).trans ?_
    exact hafter.symm ▸ .refl _ _

variable {flow : ControlFlow} {done : List NodeId} {failure? : Option Failure}

/-- A resource is traced back to an element that opened it, or to a branch. -/
theorem Exploration.Reached.opens_of_traced
    (hx : Reached [detector config] o flow done x failure?) {visited : List NodeId} {parent : Node}
    (h : Flow.Traced x.graph (query config v) false visited id parent element) :
    config.opens element ∨
      ∃ trueTarget falseTarget pos, element = .terminator (.branch trueTarget falseTarget pos) := by
  induction h with
  | held _ _ _ _ _ _ _ ih => exact ih
  | @learned _ _ child e parent element hchild he hkind hback hsat hunsat =>
    refine Classical.byContradiction fun hnot => ?_
    have hregular : e.exceptional = false := by simpa using hkind
    obtain ⟨hextends, hm, helement, hcontinues, hstate⟩ := hx.allTaken hchild he hregular
    obtain ⟨parent', hparent', hsame⟩ := hextends.node hm
    cases hback.node.symm.trans hparent'
    rw [← hsame.point] at helement
    cases hback.element.symm.trans helement
    have hopens := hcontinues.opensNone (eq_false_of_ne_true fun h => hnot (.inl h))
      fun _ _ _ h => hnot (.inr ⟨_, _, _, h⟩)
    have hall := (hopens.trans (opensNone_cleanup _ _)).trans
      (opensNone_of_equiv (Setoid.symm hstate))
    have hparent := hall.satisfied hsat
    rw [← hsame.state, hunsat] at hparent
    cases hparent

/-- The path by which a node was created took no exception. -/
inductive Graph.Regular (g : Graph) : NodeId → Prop
  | entry : Regular g 0
  | child {id n e} : id ≠ 0 → g.node? id = some n → n.parents.head? = some e →
      e.exceptional = false → Regular g e.parent → Regular g id

theorem State.constraint?_empty (w : Value) (id : Nat) :
    State.empty.constraint? w (.custom id) = none := by
  rw [Option.eq_none_iff_forall_ne_some]
  intro c hc
  obtain ⟨held, hheld, hget⟩ := Option.bind_eq_some_iff.1 hc
  obtain ⟨e, he, _, rfl⟩ := constraintsOf?_eq_some.1 hheld
  have hmem := (Keyed.find?_eq_some_iff.1 hget).1
  have hdomain := constraint?_domain hc
  rw [toList_constraints_empty] at he
  simp only [List.mem_cons, List.not_mem_nil, or_false] at he
  rcases he with rfl | rfl | rfl
  · cases List.mem_singleton.1 hmem
    cases hdomain
  all_goals
    rcases List.mem_cons.1 hmem with rfl | hmem
    · cases hdomain
    · cases List.mem_singleton.1 hmem
      cases hdomain

theorem State.initial_unsatisfied (parameters : List Parameter) :
    ¬ ((query config v).satisfied? (State.initial parameters {}).1).isSome := by
  have hempty : OpensNone config.id .empty (State.initial parameters {}).1 :=
    State.initial_induction (I := fun _ s _ => OpensNone config.id .empty s) (.refl _ _)
      (fun _ _ _ h => h.trans (opensNone_of_eq rfl rfl)) parameters
  intro hsat
  obtain ⟨w, _, hopen⟩ := satisfied_iff.1 (hempty.satisfied hsat)
  rw [State.constraint?_empty] at hopen
  cases hopen

/-- Along a path without exceptions, every open resource can be traced back. -/
theorem Exploration.Reached.traced_of_regular
    (hx : Reached [detector config] o flow done x failure?) (hid : x.graph.Regular id)
    {visited : List NodeId} (hvisited : ∀ j ∈ visited, id ≤ j) {n : Node}
    (hn : x.graph.node? id = some n) (hsat : ((query config v).satisfied? n.state).isSome) :
    ∃ parent element, Flow.Traced x.graph (query config v) false visited id parent element := by
  induction hid generalizing visited n with
  | entry =>
    obtain ⟨n', hn', hsame⟩ := hx.extends.node (i := 0) rfl
    cases hn.symm.trans hn'
    rw [hsame.state] at hsat
    exact absurd ((opensNone_of_eq rfl rfl).satisfied hsat) (State.initial_unsatisfied _)
  | @child id n' e hne hn' he hregular _ ih =>
    cases hn.symm.trans hn'
    obtain ⟨e', he', hlt⟩ := hx.wellFormed.graph.created hn hne
    cases he.symm.trans he'
    have hmem := List.mem_of_head? he
    obtain ⟨parent, hparent, _⟩ := hx.wellFormed.graph.edges_follow hn hmem
    obtain ⟨element, helement⟩ := ControlFlow.element_of_mem_points
      (hx.wellFormed.graph.mem_points hparent)
    have hback : Flow.Search.Back x.graph visited e parent element := by
      refine ⟨fun hvisit => ?_, hparent, helement⟩
      exact absurd (hvisited _ hvisit) (Nat.not_le_of_lt hlt)
    have hkind : (false || !e.exceptional) = true := by rw [hregular]; rfl
    cases hsat' : (query config v).satisfied? parent.state with
    | none => exact ⟨_, _, .learned hn hmem hkind hback hsat hsat'⟩
    | some c =>
      have hrest : ∀ j ∈ e.parent :: visited, e.parent ≤ j := by
        intro j hj
        rcases List.mem_cons.1 hj with rfl | hj
        · exact Nat.le_refl _
        · exact Nat.le_trans (Nat.le_of_lt hlt) (hvisited j hj)
      have hsome : ((query config v).satisfied? parent.state).isSome := by rw [hsat']; rfl
      obtain ⟨parent', element', htraced⟩ := ih hrest hparent hsome
      exact ⟨_, _, .held hn hmem hkind hback hsat hsome htraced⟩

namespace Detector.UnclosedResources

/-- Where a resource that is open at a node came from, and its type: regular edges lead back to an
element that opened it, or it came in by a parameter. -/
inductive Origin (config : Config) (g : Graph) (id : NodeId) (v : Value) : Position → String → Prop
  | opened {parent element type} :
      Flow.Traced g (query config v) false [id] id parent element → config.opens element →
      resourceType? config element = some type → Origin config g id v element.pos type
  | parameter {p} : g.parameterOf? v = some p → Origin config g id v p.pos p.type.simpleName

variable {w : View} {flows : List Flow} {pos : Position} {type : String}

theorem origin?_eq_some (h : origin? config w v flows = some (pos, type)) :
    (∃ f ∈ flows, ∃ l ∈ f, ∃ p element, l.point? = some p ∧
        w.graph.flow.element p = .ok element ∧ resourceType? config element = some type ∧
        l.pos = pos) ∨
      ∃ p, w.graph.parameterOf? v = some p ∧ p.pos = pos ∧ p.type.simpleName = type := by
  simp only [origin?, Option.orElse_eq_orElse, Option.orElse_eq_or] at h
  rcases Option.or_eq_some_iff.1 h with h | ⟨_, h⟩
  · obtain ⟨l, hl, h⟩ := List.exists_of_findSome?_eq_some h
    obtain ⟨f, hf, hl⟩ := List.mem_flatten.1 hl
    obtain ⟨p, hp, h⟩ := Option.bind_eq_some_iff.1 h
    obtain ⟨element, helement, h⟩ := Option.bind_eq_some_iff.1 h
    obtain ⟨type', htype, h⟩ := Option.bind_eq_some_iff.1 h
    cases h
    refine .inl ⟨f, hf, l, hl, p, element, hp, ?_, htype, rfl⟩
    cases hfound : w.graph.flow.element p with
    | error =>
      rw [hfound] at helement
      cases helement
    | ok =>
      rw [hfound] at helement
      cases helement
      rfl
  · obtain ⟨p, hp, h⟩ := Option.map_eq_some_iff.1 h
    cases h
    exact .inr ⟨p, hp, rfl, rfl⟩

theorem origin?_eq_none (h : origin? config w v flows = none) :
    (∀ f ∈ flows, ∀ l ∈ f, ∀ p element, l.point? = some p →
        w.graph.flow.element p = .ok element → resourceType? config element = none) ∧
      w.graph.parameterOf? v = none := by
  simp only [origin?, Option.orElse_eq_orElse, Option.orElse_eq_or] at h
  obtain ⟨hflows, hparameter⟩ := Option.or_eq_none_iff.1 h
  refine ⟨fun f hf l hl p element hp helement => ?_, Option.map_eq_none_iff.1 hparameter⟩
  have hl := List.findSome?_eq_none_iff.1 hflows l (List.mem_flatten.2 ⟨f, hf, hl⟩)
  cases htype : resourceType? config element with
  | none => rfl
  | some type =>
    rw [hp] at hl
    simp only [Option.bind_eq_bind, Option.bind_some, helement, Except.toOption, htype] at hl
    cases hl

theorem opens_of_resourceType? (hx : Reached [detector config] o flow done x failure?)
    {parent : Node} (h : Flow.Traced x.graph (query config v) false [id] id parent element)
    (htype : resourceType? config element = some type) : config.opens element := by
  rcases hx.opens_of_traced h with hopens | ⟨_, _, _, rfl⟩
  · exact hopens
  · cases htype

/-- A resource is reported at its origin; if it has none, this is noted. -/
theorem report_cases (hx : Reached [detector config] o flow done x failure?)
    (hm : x.graph.node? id = some m) (hsat : ((query config v).satisfied? m.state).isSome)
    (hlimits : (Graph.searchFrom id (query config v)).completes x.graph (query config v) o false)
    (t : State) :
    (∃ i, report config (x.view o id m t) v = .inl i ∧
        ∃ type, i.message = message type ∧ Origin config x.graph id v i.pos type) ∨
      (¬ ∃ pos type, Origin config x.graph id v pos type) ∧
        report config (x.view o id m t) v =
          .inr ⟨.debug, "Open resource without origin", [("value", v.text)]⟩ := by
  obtain ⟨htraced, hexplains⟩ := Graph.flows_traced hm hsat hlimits
  have hflows : (x.view o id m t).flows v [] (· == opened config.id) [.custom config.id] false =
      x.graph.flows id (query config v) o false := rfl
  simp only [report, hflows]
  cases horigin : origin? config (x.view o id m t) v (x.graph.flows id (query config v) o false) with
  | some found =>
    obtain ⟨pos, type⟩ := found
    refine .inl ⟨_, rfl, type, rfl, ?_⟩
    rcases origin?_eq_some horigin with
      ⟨f, hf, l, hl, p, element, hp, helement, htype, rfl⟩ | ⟨p, hp, rfl, rfl⟩
    · cases hexplains f hf l hl with
      | parameter hnone => cases hp.symm.trans hnone
      | assigned hpoint hassign =>
        cases hp.symm.trans hpoint
        cases helement.symm.trans hassign
        cases htype
      | learned h hpos hpoint =>
        cases hp.symm.trans hpoint
        cases helement.symm.trans h.element_eq
        dsimp only
        rw [hpos]
        exact .opened h (opens_of_resourceType? hx h htype) htype
    · exact .parameter hp
  | none =>
    obtain ⟨hnone, hparameter⟩ := origin?_eq_none horigin
    refine .inr ⟨?_, rfl⟩
    rintro ⟨pos, type, h⟩
    cases h with
    | parameter hp => cases hparameter.symm.trans hp
    | opened h _ htype =>
      obtain ⟨f, hf, l, hl, _, hpoint⟩ := htraced h
      have htype' := hnone f hf l hl _ _ hpoint h.element_eq
      cases htype.symm.trans htype'

/-- Every open resource is reported where a path returns. -/
theorem mem_pathEnd (hexit : w.state.exit? = none)
    (hv : v ∈ w.state.valuesWith (opened config.id)) :
    (∀ i, report config w v = .inl i → i ∈ (pathEnd config w).issues) ∧
      ∀ n, report config w v = .inr n → n ∈ (pathEnd config w).notes := by
  have hmem := List.mem_map_of_mem (f := report config w) hv
  unfold pathEnd
  rw [hexit]
  exact ⟨fun i hi => List.mem_filterMap.2 ⟨_, hmem, by rw [hi]; rfl⟩,
    fun n hn => List.mem_filterMap.2 ⟨_, hmem, by rw [hn]; rfl⟩⟩

end Detector.UnclosedResources

namespace State

theorem mem_valuesWith {c : Constraint} (h : v ∈ s.valuesWith c) :
    s.constraint? v c.domain = some c := by
  obtain ⟨e, he, rfl⟩ := List.mem_map.1 h
  obtain ⟨he, hhas⟩ := List.mem_filter.1 he
  rw [constraint?, constraintsOf?_eq_some.2 ⟨e, he, Setoid.refl _, rfl⟩]
  exact eq_of_beq hhas

theorem exists_mem_valuesWith {c : Constraint} (h : s.constraint? v c.domain = some c) :
    ∃ w ∈ s.valuesWith c, w ≈ v := by
  obtain ⟨held, hheld, hc⟩ := Option.bind_eq_some_iff.1 h
  obtain ⟨e, he, hequiv, rfl⟩ := constraintsOf?_eq_some.1 hheld
  exact ⟨e.1, List.mem_map_of_mem (List.mem_filter.2 ⟨he, beq_iff_eq.2 hc⟩), hequiv⟩

end State

theorem Exploration.terminal?_opensNone
    (h : x.terminal? [detector config] o id m = some t) : OpensNone config.id m.state t := by
  obtain ⟨τ, s, j, u, _, hbefore, hu, rfl⟩ := terminal?_eq_some.1 h
  obtain ⟨_, rfl⟩ := Journal.consult_singleton hbefore
  obtain ⟨stack, rfl⟩ := (Terminator.leave?_eq_some hu).1
  have hhook : OpensNone config.id m.state
      ((before config (x.view o id m m.state) (.terminator τ)).stateFrom m.state) :=
    before_opensNone (w := x.view o id m m.state) rfl
  refine hhook.trans (.trans ?_ (opensNone_cleanup _ _))
  exact opensNone_of_eq rfl rfl

/-- What becomes of the resource `v` that is open where a path returns at the node `id` in a state
that is new: it is reported at its origin, or it is noted that it has none. In the second case the
path took an exception, or a branch made the value count as open. -/
def Accounted (config : Config) (o : Options) (flow : ControlFlow) (g : Graph) (id : NodeId)
    (v : Value) : Prop :=
  (∃ f ∈ (explore [detector config] o flow).journal.findings, f.check = UnclosedResources.name ∧
      ∃ type, f.message = message type ∧ Origin config g id v f.pos type) ∨
    (¬ ∃ pos type, Origin config g id v pos type) ∧
      ⟨.debug, "Open resource without origin", [("routine", flow.name), ("value", v.text)]⟩ ∈
        (explore [detector config] o flow).journal.log.toList ∧
      (g.Regular id → ∃ parent trueTarget falseTarget pos,
        Flow.Traced g (query config v) false [id] id parent
          (.terminator (.branch trueTarget falseTarget pos)))

theorem Exploration.Returns.accounted (h : Returns [detector config] o flow x id t)
    (hnew : ∀ u ∈ x.ended.items, ¬ u ≈ t) (hexit : t.exit? = none)
    (hv : v ∈ t.valuesWith (opened config.id))
    (hcomplete : (explore [detector config] o flow).status = .complete)
    (hlimits : (Graph.searchFrom id (query config v)).completes x.graph (query config v) o false) :
    Accounted config o flow x.graph id v := by
  obtain ⟨⟨done, hx⟩, ⟨pending, hnext⟩, node, hnode, hterminal⟩ := h
  have hopen := (Exploration.terminal?_opensNone hterminal).opened (State.mem_valuesWith hv)
  have hsat : ((query config v).satisfied? node.state).isSome :=
    satisfied_iff.2 ⟨v, .inl (Setoid.refl v), hopen⟩
  obtain ⟨y, hstep, hissues, hnotes⟩ := reported_of_terminal? (x := x.proceed pending) hterminal hnew
    (List.mem_singleton_self _)
  obtain ⟨hfindings, hlog⟩ := (hx.step hnext hnode hstep).extends_explore hcomplete
  obtain ⟨hissue, hnote⟩ := mem_pathEnd (w := x.view o id node t) hexit hv
  rcases report_cases hx hnode hsat hlimits t with
    ⟨i, hreport, type, hmessage, horigin⟩ | ⟨hnone, hreport⟩
  · obtain ⟨f, hf, hsubject⟩ := List.mem_map.1 (hfindings _ (hissues i (hissue i hreport)))
    obtain ⟨hcheck, hsubject⟩ := Prod.mk.inj hsubject
    obtain ⟨hpos, hmessage'⟩ := Prod.mk.inj hsubject
    exact .inl ⟨f, hf, hcheck, type, hmessage'.trans hmessage, hpos ▸ horigin⟩
  · refine .inr ⟨hnone, hlog _ (hnotes _ (hnote _ hreport)), fun hregular => ?_⟩
    have hvisited : ∀ j ∈ [id], id ≤ j := fun j hj => Nat.le_of_eq (List.mem_singleton.1 hj).symm
    obtain ⟨parent, element, htraced⟩ := hx.traced_of_regular hregular hvisited hnode hsat
    rcases hx.opens_of_traced htraced with hopens | ⟨trueTarget, falseTarget, pos, rfl⟩
    · obtain ⟨type, htype⟩ := resourceType?_of_opens hopens
      exact absurd ⟨_, type, .opened htraced hopens htype⟩ hnone
    · exact ⟨parent, trueTarget, falseTarget, pos, htraced⟩

/-- A resource that is open where a path returns without an exception is accounted for, at the
first return in the same state. -/
theorem explore_reports_leak (hreturns : Returns [detector config] o flow x id t)
    (hexit : t.exit? = none) (hopen : t.constraint? v (.custom config.id) = some (opened config.id))
    (hcomplete : (explore [detector config] o flow).status = .complete) :
    ∃ y i u w, Returns [detector config] o flow y i u ∧ (∀ s ∈ y.ended.items, ¬ s ≈ u) ∧ u ≈ t ∧
      w ≈ v ∧ ((Graph.searchFrom i (query config w)).completes y.graph (query config w) o false →
        Accounted config o flow y.graph i w) := by
  obtain ⟨y, i, u, hfirst, hnew, hequiv, hexit⟩ := hreturns.exists_first hexit
  have hopen : u.constraint? v (.custom config.id) = some (opened config.id) :=
    (State.constraint?_of_equiv hequiv v _).trans hopen
  obtain ⟨w, hw, hwv⟩ := State.exists_mem_valuesWith (c := opened config.id) hopen
  exact ⟨y, i, u, w, hfirst, hnew, hequiv, hwv, hfirst.accounted hnew hexit hw hcomplete⟩

def Detector.UnclosedResources.Config.res : Config where
  constructors := [⟨"Res", "<init>", none⟩]
  factories := []
  openings := []
  closings := [⟨"Res", "close", none⟩]
  id := 0

def ControlFlow.forgotten : ControlFlow where
  routine := {
    name := "forgotten"
    entry := 0
    blocks := [
      { id := 0
        instructions := [
          .newObject ⟨"Res", "<init>", [], .reference "Res", false⟩ [] .unknown,
          .assign "r" .unknown]
        terminator := .ret false .unknown }] }
  nodup := by decide
  entry_mem := by decide
  targets_mem _ hb _ hid := Routine.missingTarget?_eq_none (by decide) hb hid

theorem explore_reports_leak_forgotten :
    ∃ y i u, Returns [detector .res] {} .forgotten y i u ∧ (∀ s ∈ y.ended.items, ¬ s ≈ u) ∧
      Accounted .res {} .forgotten y.graph i (.simple 3) := by
  have hreturn : (returned? [detector .res] {} .forgotten 2).any fun r =>
      r.2.2.exit? = none ∧ r.2.2.constraint? (.simple 3) (.custom 0) = some (opened 0) := by
    decide +kernel
  obtain ⟨⟨x, id, t⟩, hr, hreturn⟩ := (Option.any_eq_true _ _).1 hreturn
  obtain ⟨hexit, hopen⟩ := of_decide_eq_true hreturn
  have hcomplete : (explore [detector .res] {} .forgotten).status = .complete := by decide +kernel
  obtain ⟨y, i, u, w, hfirst, hnew, _, hw, haccounted⟩ :=
    explore_reports_leak (returns_of_returned? hr) hexit hopen hcomplete
  cases Value.equiv_simple.1 hw
  -- whichever of the three steps it is that returns, no limit is in the way there
  have hlimits : ∀ k ≤ 3, ∀ r ∈ returned? [detector .res] {} .forgotten k,
      (Graph.searchFrom r.2.1 (query .res (.simple 3))).completes r.1.graph
        (query .res (.simple 3)) {} false := by
    decide +kernel
  obtain ⟨k, hk, hr⟩ := hfirst.exists_returned? 3 (by decide +kernel)
  exact ⟨y, i, u, hfirst, hnew, haccounted (hlimits k hk _ hr)⟩

/-- A routine that closes a resource after a call that may throw, and returns if it does throw. -/
def ControlFlow.handled : ControlFlow where
  routine := {
    name := "handled"
    entry := 0
    blocks := [
      { id := 0
        instructions := [
          .newObject ⟨"Res", "<init>", [], .reference "Res", false⟩ [] .unknown,
          .assign "r" .unknown,
          .invoke ⟨"Env", "work", [], .void, true⟩ false [] .unknown,
          .read "r" .unknown,
          .invoke ⟨"Res", "close", [], .void, false⟩ true [] .unknown]
        terminator := .ret false .unknown
        handlers := [1] },
      { id := 1, instructions := [.pop .unknown], terminator := .ret false .unknown }] }
  nodup := by decide
  entry_mem := by decide
  targets_mem _ hb _ hid := Routine.missingTarget?_eq_none (by decide) hb hid

/-- The resource is left open by the handler, no limit is in the way, and nothing is reported. -/
theorem handled_leak_unreported :
    (∃ x id t, Returns [detector .res] {} .handled x id t ∧ t.exit? = none ∧
      t.constraint? (.simple 3) (.custom 0) = some (opened 0) ∧
      (Graph.searchFrom id (query .res (.simple 3))).completes x.graph (query .res (.simple 3)) {}
        false) ∧
      (explore [detector .res] {} .handled).status = .complete ∧
      (explore [detector .res] {} .handled).journal.findings = [] := by
  have hreturn : (returned? [detector .res] {} .handled 7).any fun r =>
      r.2.2.exit? = none ∧ r.2.2.constraint? (.simple 3) (.custom 0) = some (opened 0) ∧
        (Graph.searchFrom r.2.1 (query .res (.simple 3))).completes r.1.graph
          (query .res (.simple 3)) {} false := by
    decide +kernel
  have hreported : (explore [detector .res] {} .handled).status = .complete ∧
      (explore [detector .res] {} .handled).journal.findings = [] := by
    decide +kernel
  obtain ⟨⟨x, id, t⟩, hr, hreturn⟩ := (Option.any_eq_true _ _).1 hreturn
  exact ⟨⟨x, id, t, returns_of_returned? hr, of_decide_eq_true hreturn⟩, hreported⟩

end Pathwise
