import Mathlib.Algebra.Order.BigOperators.Group.Finset
import Mathlib.Algebra.Order.BigOperators.Group.List
import Mathlib.Algebra.Order.Ring.Nat
import Mathlib.Data.Multiset.DershowitzManna
import Pathwise.Proofs.Creation

namespace Pathwise

/-- The visits that a path in the state `s` has left, over all points. -/
def State.budget (limit : Nat) (flow : ControlFlow) (s : State) : Nat :=
  (flow.points.map fun p => limit - s.visitCount p).sum

theorem State.budget_congr {limit : Nat} {flow : ControlFlow} {s t : State}
    (h : s.visits = t.visits) : s.budget limit flow = t.budget limit flow := by
  simp only [budget, visitCount_congr h]

theorem State.budget_visit_lt {limit : Nat} {flow : ControlFlow} {s : State} {p : Point}
    (hp : p ∈ flow.points) (hlt : s.visitCount p < limit) :
    (s.visit p).budget limit flow < s.budget limit flow := by
  refine List.sum_lt_sum _ _ (fun q _ => ?_) ⟨p, hp, ?_⟩
  · rw [visitCount_visit]
    split <;> omega
  · rw [visitCount_visit, if_pos rfl]
    omega

theorem Worklist.coe_toList_add (w : Worklist) (id : NodeId) :
    ((w.add id).toList : Multiset NodeId) = id ::ₘ (w.toList : Multiset NodeId) := by
  rw [toList_add]
  cases w.heuristic with
  | depthFirst => rfl
  | breadthFirst => exact Multiset.coe_eq_coe.2 (List.perm_append_singleton id w.toList)

namespace Graph

def budget (limit : Nat) (g : Graph) (id : NodeId) : Nat :=
  (g.node? id).elim 0 fun n => n.state.budget limit g.flow

theorem budget_of_node? {limit : Nat} {g : Graph} {id : NodeId} {n : Node}
    (h : g.node? id = some n) : g.budget limit id = n.state.budget limit g.flow := by
  rw [budget, h]
  rfl

theorem Extends.budget_eq {limit : Nat} {g h : Graph} (hextends : g.Extends h) {id : NodeId}
    (hid : id < g.size) : h.budget limit id = g.budget limit id := by
  obtain ⟨m, hm⟩ := lt_size_iff.1 hid
  obtain ⟨n, hn, hmn⟩ := hextends.node hm
  rw [budget_of_node? hm, budget_of_node? hn, hmn.state, hextends.flow]

end Graph

namespace Exploration

variable {detectors : List Detector} {o : Options} {flow : ControlFlow} {done : List NodeId}
  {x y : Exploration}

def budgets (limit : Nat) (x : Exploration) : Multiset Nat :=
  (x.pending.toList : Multiset NodeId).map (x.graph.budget limit)

theorem Quiet.budgets_eq {limit : Nat} (h : Quiet x y) : y.budgets limit = x.budgets limit := by
  rw [budgets, budgets, h.pending, h.graph]

theorem WellFormed.budgets_eq {limit : Nat} (h : x.WellFormed o done)
    (hextends : x.graph.Extends y.graph) (hpending : y.pending = x.pending) :
    y.budgets limit = x.budgets limit := by
  rw [budgets, budgets, hpending]
  exact Multiset.map_congr rfl fun id hid => hextends.budget_eq ((h.pending_iff id).1 hid).1

/-- A state that is enqueued adds at most one budget, and a smaller one than it came with. -/
theorem WellFormed.budgets_enqueue (h : x.WellFormed o done) {p : Point} {s : State} {e : Edge}
    (hp : p ∈ x.graph.flow.points) :
    ∃ added, (x.enqueue o p s e).budgets (visitLimit o) = x.budgets (visitLimit o) + added ∧
      ∀ b ∈ added, b < s.budget (visitLimit o) x.graph.flow := by
  have hextends := enqueue_extends o x p s e
  rcases enqueue_cases o x p s e with ⟨i, _, heq⟩ | ⟨_, _, _, hpending, _⟩ | ⟨_, hlt, heq⟩
  · exact ⟨0, by rw [h.budgets_eq hextends (by rw [heq]), add_zero], nofun⟩
  · exact ⟨0, by rw [h.budgets_eq hextends hpending, add_zero], nofun⟩
  · refine ⟨{(s.cleanup.visit p).budget (visitLimit o) x.graph.flow}, ?_, ?_⟩
    · have hnew : (x.enqueue o p s e).graph.node? x.graph.size =
          some ⟨p, s.cleanup.visit p, [e]⟩ := by
        rw [heq, Graph.node?_insert, if_pos rfl]
      have hpending : (x.enqueue o p s e).pending = x.pending.add x.graph.size := by rw [heq]
      rw [budgets, hpending, Worklist.coe_toList_add, Multiset.map_cons,
        Graph.budget_of_node? hnew, hextends.flow, add_comm, ← Multiset.singleton_add]
      congr 1
      exact Multiset.map_congr rfl fun id hid => hextends.budget_eq ((h.pending_iff id).1 hid).1
    · intro b hb
      rw [Multiset.mem_singleton.1 hb]
      exact State.budget_visit_lt hp (Nat.lt_of_lt_of_le hlt (Nat.le_max_right _ _))

/-- Processing a node replaces its budget by smaller ones, any number of them. -/
theorem budgets_step (hdetectors : ∀ d ∈ detectors, d.KeepsVisits) {id : NodeId} {node : Node}
    {pending : Worklist} (h : x.WellFormed o done) (hnext : x.pending.next? = some (id, pending))
    (hnode : x.graph.node? id = some node)
    (hstep : Stepped detectors o (x.proceed pending) id node y none) :
    (y.budgets (visitLimit o)).IsDershowitzMannaLT (x.budgets (visitLimit o)) := by
  have hwell := h.proceed hnext
  -- whatever the step adds has a smaller budget than the node had
  obtain ⟨added, hadded, hlt⟩ : ∃ added,
      y.budgets (visitLimit o) = (x.proceed pending).budgets (visitLimit o) + added ∧
        ∀ b ∈ added, b < node.state.budget (visitLimit o) x.graph.flow := by
    cases hstep with
    | sunk _ hquiet _ => exact ⟨0, by rw [hquiet.budgets_eq, add_zero], nofun⟩
    | performed helement hadjusted hyields henqueued =>
      have hfollows := hyields.follows helement
      refine (hwell.enqueued (I := fun z => ∃ added,
        z.budgets (visitLimit o) = (x.proceed pending).budgets (visitLimit o) + added ∧
          ∀ b ∈ added, b < node.state.budget (visitLimit o) x.graph.flow) hnode hfollows henqueued
        ⟨0, (add_zero _).symm, nofun⟩ ?_ ?_).2
      · intro z w hquiet hz
        rw [hquiet.budgets_eq]
        exact hz
      · rintro z a ha hz hextends ⟨added, hadded, hlt⟩
        have hvisits := (hyields.visits_eq hdetectors a ha).trans (hadjusted.visits_eq hdetectors)
        have hp : a.point ∈ z.graph.flow.points := hextends.flow ▸ (hfollows a ha).mem_points
        obtain ⟨more, hmore, hless⟩ := hz.budgets_enqueue (s := a.state)
          (e := ⟨id, a.exceptional⟩) hp
        refine ⟨added + more, by rw [hmore, hadded, add_assoc], fun b hb => ?_⟩
        rcases Multiset.mem_add.1 hb with hb | hb
        · exact hlt b hb
        · rw [hextends.flow, State.budget_congr hvisits] at hless
          exact hless b hb
  refine ⟨(x.proceed pending).budgets (visitLimit o), added, {x.graph.budget (visitLimit o) id},
    Multiset.singleton_ne_zero _, hadded, ?_, ?_⟩
  · rw [budgets, Worklist.toList_of_next? hnext, ← Multiset.cons_coe, Multiset.map_cons, add_comm,
      Multiset.singleton_add]
    rfl
  · intro b hb
    exact ⟨_, Multiset.mem_singleton_self _, Graph.budget_of_node? hnode ▸ hlt b hb⟩

/-- The two ways to end other than by a limit on the steps. -/
def Settled (x : Exploration) (failure? : Option Failure) (status : Status) : Prop :=
  match failure? with
  | none => x.pending.toList = [] ∧ status = .complete
  | some f => status = .ofFailure f

/-- From every moment on, enough steps lead to a moment where nothing is pending or to a step that
fails. -/
theorem Reached.settles (hdetectors : ∀ d ∈ detectors, d.KeepsVisits)
    (h : Reached detectors o flow done x none) :
    ∃ enough, ∀ left, enough ≤ left → ∃ done' y failure?,
      Reached detectors o flow done' y failure? ∧
        (x.run detectors o left).1.graph = y.graph ∧
        (x.run detectors o left).1.statistics = y.statistics ∧
        y.Settled failure? (x.run detectors o left).2 := by
  have hwell := Multiset.wellFounded_isDershowitzMannaLT (α := Nat)
  generalize hbudgets : x.budgets (visitLimit o) = budgets
  induction budgets using hwell.induction generalizing done x with
  | _ budgets ih =>
    -- one step makes the budgets of the pending nodes smaller as a multiset
    subst hbudgets
    cases hnext : x.pending.next? with
    | none =>
      refine ⟨0, fun left _ => ⟨done, x, none, h, ?_⟩⟩
      rw [run_of_none hnext]
      exact ⟨rfl, rfl, Worklist.next?_eq_none_iff.1 hnext, rfl⟩
    | some next =>
      obtain ⟨node, hnode⟩ := h.wellFormed.node_of_next? hnext
      cases hstep : (x.proceed next.2).step detectors o next.1 node with
      | mk y failure? =>
        have hy := h.step hnext hnode hstep
        cases failure? with
        | none =>
          obtain ⟨enough, henough⟩ :=
            ih _ (budgets_step hdetectors h.wellFormed hnext hnode (step_stepped hstep)) hy rfl
          refine ⟨enough + 1, fun left hleft => ?_⟩
          obtain ⟨left, rfl⟩ := Nat.exists_eq_add_of_le' (Nat.le_trans (Nat.le_add_left 1 _) hleft)
          rw [run_of_step hnext hnode hstep]
          exact henough left (Nat.le_of_succ_le_succ hleft)
        | some f =>
          refine ⟨1, fun left hleft => ⟨_, y, some f, hy, ?_⟩⟩
          obtain ⟨left, rfl⟩ := Nat.exists_eq_add_of_le' hleft
          rw [run_of_failure hnext hnode hstep]
          exact ⟨rfl, rfl, rfl⟩

end Exploration

theorem length_le_mul_of_count_le {α : Type} [DecidableEq α] {as bs : List α} {limit : Nat}
    (hmem : ∀ a ∈ as, a ∈ bs) (hcount : ∀ a, as.count a ≤ limit) :
    as.length ≤ bs.length * limit := by
  have hsubset : as.toFinset ⊆ bs.toFinset := fun a ha =>
    List.mem_toFinset.2 (hmem a (List.mem_toFinset.1 ha))
  calc as.length = ∑ a ∈ as.toFinset, as.count a := (List.sum_toFinset_count_eq_length as).symm
    _ ≤ as.toFinset.card * limit := Finset.sum_le_card_nsmul _ _ _ fun a _ => hcount a
    _ ≤ bs.length * limit :=
      Nat.mul_le_mul_right _ ((Finset.card_le_card hsubset).trans bs.toFinset_card_le)

open Exploration in
/-- The path by which a node was created has a bounded length, and an exploration ends after
finitely many steps unless one of them fails. -/
theorem explore_terminates (first : Nat) (choices : List Detector.Choice)
    (detectors : List Detector) (hsetUp : Detector.Choice.setUpAll first choices = .ok detectors)
    (o : Options) (flow : ControlFlow) :
    (∀ done x failure?, Reached detectors o flow done x failure? →
      ∀ id n, x.graph.node? id = some n →
        (∃ ps, x.graph.Created id ps) ∧ ∀ ps, x.graph.Created id ps →
          (∀ p, n.state.visitCount p = ps.count p ∧ ps.count p ≤ max 1 o.maxVisitsPerPoint) ∧
            ps.length ≤ flow.points.length * max 1 o.maxVisitsPerPoint) ∧
      ∃ enough, ∀ left, enough ≤ left → ∃ done x failure?,
        Reached detectors o flow done x failure? ∧
          ((start o flow).run detectors o left).1.graph = x.graph ∧
          ((start o flow).run detectors o left).1.statistics = x.statistics ∧
          x.Settled failure? ((start o flow).run detectors o left).2 := by
  have hdetectors := Detector.Choice.keepsVisits_all hsetUp
  refine ⟨fun done x failure? h id n hn => ?_, Reached.settles hdetectors .start⟩
  obtain ⟨ps, hps, hcount⟩ := h.counted hdetectors hn
  refine ⟨⟨ps, hps⟩, fun qs hqs => ?_⟩
  cases hps.unique hqs
  have hmem := h.wellFormed.graph.mem_points_of_created hps
  rw [h.flow_eq] at hmem
  exact ⟨hcount, length_le_mul_of_count_le hmem fun p => (hcount p).2⟩

/-- A loop that assigns a new value in every round. -/
def ControlFlow.renew : ControlFlow where
  routine := {
    name := "renew"
    entry := 1
    blocks := [
      { id := 1
        instructions := [.literal (.int 1) .unknown, .assign "x" .unknown]
        terminator := .goto 1 }] }
  nodup := by decide
  entry_mem := by decide
  targets_mem _ hb _ hid := Routine.missingTarget?_eq_none (by decide) hb hid

open Exploration Detector in
theorem explore_terminates_renew :
    ∃ enough, ∀ left, enough ≤ left → ∃ x failure?, Settled x failure?
      ((start {} .renew).run [NullDereference.detector, DivisionByZero.detector 0] {} left).2 ∧
      ∀ id n ps, x.graph.node? id = some n → x.graph.Created id ps → ps.length ≤ 3 * 2 := by
  obtain ⟨hchain, enough, henough⟩ := explore_terminates 0 [.nullDereference, .divisionByZero]
    [NullDereference.detector, DivisionByZero.detector 0] rfl {} .renew
  refine ⟨enough, fun left hleft => ?_⟩
  obtain ⟨done, x, failure?, h, _, _, hsettled⟩ := henough left hleft
  refine ⟨x, failure?, hsettled, fun id n ps hn hps => ?_⟩
  exact ((hchain done x failure? h id n hn).2 ps hps).2

end Pathwise
