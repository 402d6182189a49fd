import Mathlib.Data.List.Forall2
import Pathwise.Proofs.Frame
import Pathwise.Proofs.Represents

namespace Pathwise

variable {ρ : Valuation} {s t : State} {f : Frame}

theorem Value.map_eval_normal (ρ : Valuation) (vs : List Value) :
    (vs.map Value.normal).map (Value.eval ρ) = vs.map (Value.eval ρ) := by
  rw [List.map_map]
  exact List.map_congr_left fun v _ => v.eval_normal

theorem State.map_normal_value? (s : State) (name : String) :
    (s.value? name).map Value.normal =
      ((s.vars.entries.map fun e => (e.1, e.2.normal)).find?
        fun e => compare e.1 name == .eq).map Prod.snd := by
  rw [value?, Keyed.find?, List.find?_map, Option.map_map, Option.map_map]
  rfl

theorem Represents.congr (h : Represents ρ s f) (hst : s ≈ t) : Represents ρ t f := by
  obtain ⟨hstack, hvars, hconstraints, hrelations, _⟩ := hst
  refine ⟨?_, fun name => ?_, ⟨fun e he => ?_, fun r hr => ?_⟩⟩
  · rw [← Value.map_eval_normal, ← hstack, Value.map_eval_normal, h.stack]
  · have hnormal (s : State) : (s.value? name).map (Value.eval ρ) =
        ((s.value? name).map Value.normal).map (Value.eval ρ) := by
      cases s.value? name with
      | none => rfl
      | some v => exact congrArg some v.eval_normal.symm
    rw [hnormal, State.map_normal_value?, ← hvars, ← State.map_normal_value?, ← hnormal, h.vars]
  · have hmem := List.mem_map_of_mem (f := fun e => (e.1.normal, e.2)) he
    obtain ⟨e', he', heq⟩ := List.mem_map.1 (hconstraints.symm ▸ hmem)
    obtain ⟨hvalue, hset⟩ := Prod.mk.inj heq
    rw [← Value.eval_congr (Value.equiv_iff.2 hvalue), ← hset]
    exact h.models.constraints e' he'
  · have hmem := List.mem_map_of_mem (f := Relation.normal) hr
    obtain ⟨r', hr', heq⟩ := List.mem_map.1 (hrelations.symm ▸ hmem)
    exact (Relation.holds_congr (Relation.equiv_iff.2 heq)).1 (h.models.relations r' hr')

theorem represents_empty (ρ : Valuation) : Represents ρ .empty ⟨[], fun _ => none⟩ := by
  have htruth (b : Bool) :
      ∀ c ∈ [.notNull, .truth b], Meaning.builtIn.fits c (.bool b) := by
    intro c hc
    simp only [List.mem_cons, List.not_mem_nil, or_false] at hc
    rcases hc with rfl | rfl
    · exact Datum.noConfusion
    · rfl
  refine ⟨rfl, fun _ => rfl, ⟨fun e he => ?_, fun r hr => absurd hr List.not_mem_nil⟩⟩
  rw [State.toList_constraints_empty] at he
  simp only [List.mem_cons, List.not_mem_nil, or_false] at he
  rcases he with rfl | rfl | rfl
  · refine ⟨.null, rfl, fun c hc => ?_⟩
    cases List.mem_singleton.1 hc
    rfl
  · exact ⟨.bool true, rfl, htruth true⟩
  · exact ⟨.bool false, rfl, htruth false⟩

theorem State.initial_represents {flow : ControlFlow} {k : Snapshot} (h : flow.Starts k) :
    ∃ ρ, Represents ρ (initial flow.parameters {}).1 k.frame := by
  -- the parameters bound so far have the data that they have in the end
  have hall : Value.firstFreeId ≤ (initial flow.parameters {}).2.next ∧
      (initial flow.parameters {}).1.Below (initial flow.parameters {}).2.next ∧
      ∃ ρ, Represents ρ (initial flow.parameters {}).1 ⟨[], fun name =>
        if name ∈ flow.parameters.map Parameter.name then some ((k.frame.vars name).getD .null)
        else none⟩ := by
    refine initial_induction (I := fun ps s left => Value.firstFreeId ≤ left.next ∧
      s.Below left.next ∧ ∃ ρ, Represents ρ s ⟨[], fun name =>
        if name ∈ ps.map Parameter.name then some ((k.frame.vars name).getD .null) else none⟩)
      ⟨Nat.le_refl _, below_empty (Nat.le_refl _), fun _ => .null, represents_empty _⟩ ?_ _
    rintro ps s left p v hv ⟨hfree, hbelow, ρ, hρ⟩
    refine ⟨Nat.le_succ_of_le hfree, hbelow.put_fresh p.name hv,
      ρ.set left.next ((k.frame.vars p.name).getD .null), ?_⟩
    have hput := (hρ.of_below hbelow fun _ => ρ.set_of_lt _).put p.name
      (ρ.eval_set hfree ((k.frame.vars p.name).getD .null) hv)
    refine ⟨hput.stack, fun name => (hput.vars name).trans ?_, hput.models⟩
    by_cases hname : name = p.name <;> simp [hname]
  obtain ⟨_, _, ρ, hρ⟩ := hall
  refine ⟨ρ, hρ.stack.trans (h.stack ▸ rfl), fun name => (hρ.vars name).trans ?_, hρ.models⟩
  have hbound := h.bound name
  cases hvar : k.frame.vars name with
  | none => simp_all
  | some d => simp_all

theorem Value.assume_represents {v : Value} {b : Bool} {budget : Budget} {states : List State}
    (h : Represents ρ s f) (hv : v.eval ρ = some (.bool b))
    (hassume : v.assume (.truth b) budget s = .ok states) : ∃ t ∈ states, Represents ρ t f := by
  have hfits : Meaning.builtIn.fits (.truth b) (.bool b) := Meaning.builtIn.truth_iff.2 rfl
  obtain ⟨t, ht, hmodels⟩ := assume_keeps hv hfits budget h.models hassume
  have hframe := sameFrame_of_assume hassume ht
  refine ⟨t, ht, hframe.stack ▸ h.stack, fun name => ?_, hmodels⟩
  rw [hframe.value?_eq]
  exact h.vars name

/-- Each move from a frame leads to a frame that some successor represents. -/
theorem Yields.simulates {o : Options} {flow : ControlFlow} {p : Point} {supply left : Supply}
    {element : Element} {successors : List Successor} {k : Snapshot}
    (hyields : Yields [] o flow p s supply element successors left)
    (helement : flow.element p = .ok element) (hbelow : s.Below supply.next)
    (hfree : Value.firstFreeId ≤ supply.next) (h : Represents ρ s f)
    (hmoves : flow.Moves ⟨p, f⟩ k) :
    ∃ a ∈ successors, a.point = k.point ∧ a.exceptional = false ∧
      ∃ σ, Represents σ a.state k.frame := by
  cases hmoves with
  | instruction hi hruns =>
    cases helement.symm.trans hi
    cases hyields with
    | next hthrows hexecute hadjusted =>
      cases hadjusted.eq_of_nil
      obtain ⟨_, hserves, _⟩ := hthrows.served
      have hle := hserves.next_le
      obtain ⟨σ, hσ⟩ := Instruction.execute_represents h (hbelow.mono hle)
        (Nat.le_trans hfree hle) hruns hexecute
      exact ⟨_, List.mem_append_right _ (.head _), rfl, rfl, σ, hσ⟩
    | stopped hne => contradiction
  | goto ht =>
    cases helement.symm.trans ht
    cases hyields
    exact ⟨_, .head _, rfl, rfl, ρ, h⟩
  | @branch _ _ _ _ b _ _ ht =>
    cases helement.symm.trans ht
    cases hyields with
    | branch hpop hfalse htrue =>
      obtain ⟨heval, ht⟩ := h.pop hpop rfl
      cases b with
      | true =>
        obtain ⟨u, hu, hrep⟩ := Value.assume_represents ht heval htrue
        exact ⟨_, List.mem_append_right _ (List.mem_map_of_mem hu), rfl, rfl, ρ, hrep⟩
      | false =>
        obtain ⟨u, hu, hrep⟩ := Value.assume_represents ht heval hfalse
        exact ⟨_, List.mem_append_left _ (List.mem_map_of_mem hu), rfl, rfl, ρ, hrep⟩

namespace Graph

variable {g h : Graph}

def Shows (g : Graph) (id : NodeId) (k : Snapshot) : Prop :=
  ∃ n ρ, g.node? id = some n ∧ n.point = k.point ∧ Represents ρ n.state k.frame

def Leads (g : Graph) (i j : NodeId) : Prop :=
  ∃ n, g.node? j = some n ∧ ⟨i, false⟩ ∈ n.parents

theorem Extends.leads (hextends : g.Extends h) {i j : NodeId} (hleads : g.Leads i j) :
    h.Leads i j := by
  obtain ⟨n, hn, he⟩ := hleads
  obtain ⟨n', hn', hnn'⟩ := hextends.node hn
  exact ⟨n', hn', hnn'.parents.subset he⟩

theorem Extends.shows_iff (hextends : g.Extends h) {i : NodeId} (hi : i < g.size) {k : Snapshot} :
    h.Shows i k ↔ g.Shows i k := by
  obtain ⟨n, hn⟩ := lt_size_iff.1 hi
  obtain ⟨n', hn', hnn'⟩ := hextends.node hn
  constructor
  · rintro ⟨m, ρ, hm, hp, hρ⟩
    cases hn'.symm.trans hm
    exact ⟨n, ρ, hn, hnn'.point ▸ hp, hnn'.state ▸ hρ⟩
  · rintro ⟨m, ρ, hm, hp, hρ⟩
    cases hn.symm.trans hm
    exact ⟨n', ρ, hn', hnn'.point ▸ hp, hnn'.state ▸ hρ⟩

/-- Every move from what a node shows is shown by a node that it leads to. -/
def Covers (g : Graph) (id : NodeId) : Prop :=
  ∀ k k', g.Shows id k → g.flow.Moves k k' → ∃ j, g.Leads id j ∧ g.Shows j k'

theorem Extends.covers (hextends : g.Extends h) {id : NodeId} (hid : id < g.size)
    (hcovers : g.Covers id) : h.Covers id := by
  intro k k' hshows hmoves
  rw [hextends.flow] at hmoves
  obtain ⟨j, hleads, hshows'⟩ := hcovers k k' ((hextends.shows_iff hid).1 hshows) hmoves
  have ⟨n, hn, _⟩ := hleads
  exact ⟨j, hextends.leads hleads, (hextends.shows_iff (lt_size hn)).2 hshows'⟩

end Graph

namespace Exploration

variable {o : Options} {flow : ControlFlow} {done : List NodeId} {x y : Exploration} {id : NodeId}

theorem widened_enqueue (o : Options) (x : Exploration) (p : Point) (s : State) (e : Edge) :
    x.statistics.widenedStates ≤ (x.enqueue o p s e).statistics.widenedStates := by
  rcases enqueue_cases o x p s e with ⟨i, _, h⟩ | ⟨_, _, _, _, _, h⟩ | ⟨_, _, h⟩
  · exact Nat.le_of_eq (by rw [h])
  · rw [h]
    exact Nat.le_succ _
  · exact Nat.le_of_eq (by rw [h])

theorem Enqueued.widened_le {as : List Successor} (h : Enqueued o id as x y) :
    x.statistics.widenedStates ≤ y.statistics.widenedStates := by
  induction h with
  | nil h => exact Nat.le_of_eq h.widened.symm
  | cons h _ ih =>
    exact Nat.le_trans (Nat.le_of_eq h.widened.symm) (Nat.le_trans (widened_enqueue o _ _ _ _) ih)

theorem Stepped.widened_le {detectors : List Detector} {node : Node} {failure? : Option Failure}
    (h : Stepped detectors o x id node y failure?) :
    x.statistics.widenedStates ≤ y.statistics.widenedStates := by
  cases h with
  | failed hquiet _ => exact Nat.le_of_eq hquiet.widened.symm
  | sunk _ hquiet _ => exact Nat.le_of_eq hquiet.widened.symm
  | performed _ _ _ henqueued => exact henqueued.widened_le

theorem exists_of_enqueue {p : Point} {s : State} {e : Edge}
    (hwidened : (x.enqueue o p s e).statistics.widenedStates = 0) :
    ∃ j n, (x.enqueue o p s e).graph.node? j = some n ∧ n.point = p ∧ s.cleanup ≈ n.state ∧
      e ∈ n.parents := by
  rcases enqueue_cases o x p s e with ⟨i, hfind, h⟩ | ⟨_, _, _, _, _, h⟩ | ⟨_, _, h⟩
  · obtain ⟨n, hn, hp, hs⟩ := Graph.node_of_find? hfind
    refine ⟨i, n.addParent e, ?_, (n.point_addParent e).trans hp, ?_, ?_⟩
    · rw [h, Graph.node?_addParent, if_pos rfl, hn]
      rfl
    · rw [n.state_addParent e]
      exact Setoid.symm hs
    · exact Node.mem_parents_addParent.2 (.inl rfl)
  · rw [h] at hwidened
    contradiction
  · refine ⟨x.graph.size, ⟨p, s.cleanup.visit p, [e]⟩, ?_, rfl, ?_, .head _⟩
    · rw [h, Graph.node?_insert, if_pos rfl]
    · exact Setoid.symm (State.visit_equiv _ p)

theorem Enqueued.exists_node {as : List Successor} (h : Enqueued o id as x y)
    (hwidened : y.statistics.widenedStates = 0) {a : Successor} (ha : a ∈ as) :
    ∃ j n, y.graph.node? j = some n ∧ n.point = a.point ∧ a.state.cleanup ≈ n.state ∧
      ⟨id, a.exceptional⟩ ∈ n.parents := by
  induction h with
  | nil => contradiction
  | cons hquiet hrest ih =>
    rcases List.mem_cons.1 ha with rfl | ha
    · have hzero := Nat.eq_zero_of_le_zero (hwidened ▸ hrest.widened_le)
      obtain ⟨j, n, hn, hp, hs, he⟩ := exists_of_enqueue hzero
      obtain ⟨n', hn', hnn'⟩ := hrest.extends.node hn
      exact ⟨j, n', hn', hnn'.point.trans hp, hnn'.state ▸ hs, hnn'.parents.subset he⟩
    · exact ih hwidened ha

/-- Every processed node is covered, as long as no state was dropped. -/
theorem Reached.covers {failure? : Option Failure} (h : Reached [] o flow done x failure?)
    (hsuccess : failure? = none) (hwidened : x.statistics.widenedStates = 0) :
    ∀ id ∈ done, x.graph.Covers id := by
  induction h with
  | start => exact nofun
  | @step done x id pending node y _ hx hnext hnode hstep ih =>
    have hstepped := step_stepped hstep
    have hle : x.statistics.widenedStates ≤ y.statistics.widenedStates := hstepped.widened_le
    have hextends : x.graph.Extends y.graph := hstepped.extends
    intro j hj
    rcases List.mem_append.1 hj with hj | hj
    · -- what was covered before stays so, since nodes keep their states
      have hlt := hx.wellFormed.done_lt j hj
      exact hextends.covers hlt (ih rfl (by omega) j hj)
    · cases List.mem_singleton.1 hj
      cases hstepped with
      | failed => contradiction
      | sunk hne => contradiction
      | performed helement hadjusted hyields henqueued =>
        cases hadjusted.eq_of_nil
        intro k k' hshows hmoves
        obtain ⟨m, ρ, hm, hp, hρ⟩ := (hextends.shows_iff (Graph.lt_size hnode)).1 hshows
        cases hnode.symm.trans hm
        -- the node shows `k`, so one of its successors represents `k'`, and a node took it in
        rw [hextends.flow, ← show (⟨node.point, k.frame⟩ : Snapshot) = k by rw [hp]] at hmoves
        obtain ⟨a, ha, hpoint, hnormal, σ, hσ⟩ := hyields.simulates helement
          (hx.fresh.below hnode) hx.fresh.free hρ hmoves
        obtain ⟨i, n, hn, hp', hs, he⟩ := henqueued.exists_node hwidened ha
        exact ⟨i, ⟨n, hn, hnormal ▸ he⟩, n, σ, hn, hp'.trans hpoint, hσ.cleanup.congr hs⟩

end Exploration

namespace Graph

variable {g : Graph}

/-- A run can be followed from any node that shows where it starts, if all nodes are covered. -/
theorem exists_path (hcovers : ∀ id, g.Covers id) {id : NodeId} {k : Snapshot} {run : List Snapshot}
    (hshows : g.Shows id k) (hrun : (k :: run).IsChain g.flow.Moves) :
    ∃ ids, (id :: ids).IsChain g.Leads ∧ List.Forall₂ g.Shows (id :: ids) (k :: run) := by
  induction run generalizing id k with
  | nil => exact ⟨[], .singleton id, .cons hshows .nil⟩
  | cons k' run ih =>
    obtain ⟨hmoves, hrun⟩ := List.isChain_cons_cons.1 hrun
    obtain ⟨j, hleads, hshows'⟩ := hcovers id k k' hshows hmoves
    obtain ⟨ids, hchain, hall⟩ := ih hshows' hrun
    exact ⟨j :: ids, .cons_cons hleads hchain, .cons hshows hall⟩

end Graph

open Exploration in
/-- Where exploration without detectors is complete and drops no state, it covers every concrete
run: the run can be followed in the graph by edges that are not exceptional, from node to node with
the same points, and the states of these nodes represent its frames. -/
theorem explore_simulates (o : Options) (flow : ControlFlow)
    (hcomplete : (explore [] o flow).status = .complete)
    (hwidened : (explore [] o flow).statistics.widenedStates = 0) (k : Snapshot)
    (run : List Snapshot) (hstart : flow.Starts k) (hrun : (k :: run).IsChain flow.Moves) :
    ∃ g, (explore [] o flow).graph? = some g ∧
      ∃ ids, (0 :: ids).IsChain g.Leads ∧ List.Forall₂ g.Shows (0 :: ids) (k :: run) := by
  obtain ⟨done, x, failure?, hx, hgraph, hstatistics, hends⟩ := explore_reached [] o flow
  obtain ⟨rfl, hempty⟩ := Ends.of_complete (hcomplete ▸ hends)
  rw [hstatistics] at hwidened
  have hcovers (id : NodeId) : x.graph.Covers id := by
    intro j j' hshows
    have ⟨n, _, hn, _⟩ := hshows
    have hdone : id ∈ done := by
      have hpending := hx.wellFormed.pending_iff id
      rw [hempty] at hpending
      have hlt := Graph.lt_size hn
      grind
    exact hx.covers rfl hwidened id hdone j j' hshows
  have hentry : x.graph.Shows 0 k := by
    refine (hx.extends.shows_iff (Nat.lt_succ_self 0)).2 ?_
    obtain ⟨ρ, hρ⟩ := State.initial_represents hstart
    exact ⟨_, ρ, rfl, hstart.point.symm, hρ.congr (Setoid.symm (State.visit_equiv _ _))⟩
  exact ⟨x.graph, hgraph, Graph.exists_path hcovers hentry (hx.flow_eq ▸ hrun)⟩

/-- A loop that goes on while `x < y`. -/
def ControlFlow.ascent : ControlFlow where
  routine := {
    name := "ascent"
    parameters := [⟨"x", .int, .unknown⟩, ⟨"y", .int, .unknown⟩]
    entry := 1
    blocks := [
      { id := 1
        instructions := [.read "x" .unknown, .read "y" .unknown, .binary .lessThan .unknown]
        terminator := .branch 2 3 .unknown },
      { id := 2, terminator := .goto 1 },
      { id := 3, terminator := .exit }] }
  nodup := by decide
  entry_mem := by decide
  targets_mem _ hb _ hid := Routine.missingTarget?_eq_none (by decide) hb hid

def Frame.ascending (stack : List Datum) : Frame where
  stack
  vars name := if name = "x" then some (.int 1) else if name = "y" then some (.int 2) else none

theorem explore_simulates_ascent :
    ∃ g, (explore [] {} .ascent).graph? = some g ∧ ∃ ids, (0 :: ids).IsChain g.Leads ∧
      List.Forall₂ g.Shows (0 :: ids) [
        ⟨⟨1, 0⟩, .ascending []⟩, ⟨⟨1, 1⟩, .ascending [.int 1]⟩,
        ⟨⟨1, 2⟩, .ascending [.int 2, .int 1]⟩, ⟨⟨1, 3⟩, .ascending [.bool true]⟩,
        ⟨⟨2, 0⟩, .ascending []⟩, ⟨⟨1, 0⟩, .ascending []⟩, ⟨⟨1, 1⟩, .ascending [.int 1]⟩,
        ⟨⟨1, 2⟩, .ascending [.int 2, .int 1]⟩, ⟨⟨1, 3⟩, .ascending [.bool true]⟩] := by
  refine explore_simulates {} .ascent (by decide +kernel) (by decide +kernel) _ _
    ⟨rfl, rfl, fun name => ?_, fun name => ?_⟩ ?_
  · by_cases hx : name = "x" <;> by_cases hy : name = "y" <;>
      simp [Frame.ascending, ControlFlow.ascent, ControlFlow.parameters, hx, hy, eq_comm]
  · by_cases hx : name = "x" <;> by_cases hy : name = "y" <;> simp [Frame.ascending, hx, hy]
  · have hx : ControlFlow.ascent.Moves ⟨⟨1, 0⟩, .ascending []⟩ ⟨⟨1, 1⟩, .ascending [.int 1]⟩ :=
      .instruction rfl (.read rfl)
    have hy : ControlFlow.ascent.Moves ⟨⟨1, 1⟩, .ascending [.int 1]⟩
        ⟨⟨1, 2⟩, .ascending [.int 2, .int 1]⟩ := .instruction rfl (.read rfl)
    have hless : ControlFlow.ascent.Moves ⟨⟨1, 2⟩, .ascending [.int 2, .int 1]⟩
        ⟨⟨1, 3⟩, .ascending [.bool true]⟩ :=
      .instruction rfl (.compare (f := fun a b => decide (a < b)) (a := 1) (b := 2) rfl)
    have hbranch : ControlFlow.ascent.Moves ⟨⟨1, 3⟩, .ascending [.bool true]⟩
        ⟨⟨2, 0⟩, .ascending []⟩ := .branch (b := true) rfl
    have hback : ControlFlow.ascent.Moves ⟨⟨2, 0⟩, .ascending []⟩ ⟨⟨1, 0⟩, .ascending []⟩ :=
      .goto rfl
    simp [hx, hy, hless, hbranch, hback]

end Pathwise
