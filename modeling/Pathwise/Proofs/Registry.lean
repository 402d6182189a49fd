import Pathwise.Proofs.Reactions
import Pathwise.Proofs.Run

namespace Pathwise

variable {P Q : Value → Prop} {made made' : List Value}

namespace Value

/-- The id of a value. Relations have none. -/
def id? : Value → Option Nat
  | simple id | boolean id | not id _ | binary id _ _ _ => some id
  | relational _ _ _ => none

def parts : Value → List Value
  | simple id => [simple id]
  | boolean id => [boolean id]
  | not id v => not id v :: v.parts
  | binary id op l r => binary id op l r :: (l.parts ++ r.parts)
  | relational k l r => relational k l r :: (l.parts ++ r.parts)

theorem mem_parts {v w : Value} : w ∈ v.parts ↔ w = v ∨ ∃ u ∈ v.operands, w ∈ u.parts := by
  cases v <;> simp [parts, operands]

/-- Each part that has an id stands in the list at this place. -/
def Listed (made : List Value) (v : Value) : Prop :=
  ∀ w ∈ v.parts, ∀ id, w.id? = some id → made[id]? = some w

theorem listed_iff {v : Value} : v.Listed made ↔
    (∀ id, v.id? = some id → made[id]? = some v) ∧ ∀ u ∈ v.operands, u.Listed made := by
  constructor
  · intro h
    refine ⟨h v (mem_parts.2 (.inl rfl)), fun u hu w hw => ?_⟩
    exact h w (mem_parts.2 (.inr ⟨u, hu, hw⟩))
  · rintro ⟨hself, hoperands⟩ w hw
    rcases mem_parts.1 hw with rfl | ⟨u, hu, hw⟩
    · exact hself
    · exact hoperands u hu w hw

theorem listed_relational {k : Relation.Kind} {l r : Value} (hl : l.Listed made)
    (hr : r.Listed made) : (relational k l r).Listed made := by
  refine listed_iff.2 ⟨fun id hid => ?_, fun u hu => ?_⟩
  · cases hid
  · rcases List.mem_cons.1 hu with rfl | hu
    · exact hl
    · cases List.mem_singleton.1 hu
      exact hr

theorem Listed.mono {v : Value} (h : v.Listed made) (hgrows : made <+: made') :
    v.Listed made' := by
  intro w hw id hid
  obtain ⟨hlt, hget⟩ := List.getElem?_eq_some_iff.1 (h w hw id hid)
  rw [List.prefix_iff_getElem?.1 hgrows id hlt, hget]

theorem listed_constants (h : [null, true, false] <+: made) :
    null.Listed made ∧ true.Listed made ∧ false.Listed made := by
  have hlisted (v : Value) (hv : v.Listed [null, true, false]) := hv.mono h
  refine ⟨hlisted _ ?_, hlisted _ ?_, hlisted _ ?_⟩
  all_goals
    intro w hw id hid
    cases List.mem_singleton.1 hw
    cases hid
    rfl

end Value

namespace Supply

variable {s : State} {supply left : Supply} {v : Value} {vs : List Value}

/-- The list is what the supply has handed out so far, after the literal constants. -/
structure Issued (supply : Supply) (made : List Value) : Prop where
  length : supply.next = made.length
  constants : [.null, .true, .false] <+: made

theorem issued_start : Issued {} [.null, .true, .false] := ⟨rfl, List.prefix_refl _⟩

theorem Issued.append (h : supply.Issued made) (hserves : supply.Serves s vs left) :
    left.Issued (made ++ vs) where
  length := by rw [hserves.next_eq, h.length, List.length_append]
  constants := h.constants.trans (List.prefix_append _ _)

theorem Offers.id?_eq (h : supply.Offers v) : v.id? = some supply.next := by
  cases h <;> rfl

theorem Serves.listed (h : supply.Serves s vs left) (hlength : supply.next = made.length)
    (hs : ∀ w ∈ s.stack, w.Listed made) : ∀ v ∈ vs, v.Listed (made ++ vs) := by
  induction h generalizing made with
  | nil => exact List.forall_mem_nil _
  | @cons supply v vs left hoffers hoperands _ ih =>
    have hstack (w : Value) (hw : w ∈ s.stack) : w.Listed (made ++ [v]) :=
      (hs w hw).mono (List.prefix_append _ _)
    have hv : v.Listed (made ++ [v]) := by
      refine Value.listed_iff.2 ⟨fun id hid => ?_, fun u hu => hstack u (hoperands u hu)⟩
      cases hoffers.id?_eq.symm.trans hid
      rw [hlength, List.getElem?_concat_length]
    have hrest : ∀ w ∈ vs, w.Listed (made ++ [v] ++ vs) := ih (by simp [hlength]) hstack
    rw [List.append_cons]
    exact List.forall_mem_cons.2 ⟨hv.mono (List.prefix_append _ _), hrest⟩

end Supply

namespace State

def values (s : State) : List Value :=
  s.stack ++ s.vars.toList.map Prod.snd ++ s.constraints.toList.map Prod.fst ++
    s.relations.toList.flatMap (fun r => [r.left, r.right]) ++ s.exit?.toList

structure All (P : Value → Prop) (s : State) : Prop where
  stack : ∀ v ∈ s.stack, P v
  vars : ∀ e ∈ s.vars.toList, P e.2
  constraints : ∀ e ∈ s.constraints.toList, P e.1
  relations : ∀ r ∈ s.relations.toList, P r.left ∧ P r.right
  exit : ∀ v, s.exit? = some v → P v

variable {s : State} {v : Value}

theorem all_iff : s.All P ↔ ∀ v ∈ s.values, P v := by
  simp only [values, List.forall_mem_append, List.forall_mem_map, List.mem_flatMap,
    Option.mem_toList]
  constructor
  · intro h
    refine ⟨⟨⟨⟨h.stack, h.vars⟩, h.constraints⟩, ?_⟩, h.exit⟩
    rintro v ⟨r, hr, hv⟩
    rcases List.mem_cons.1 hv with rfl | hv
    · exact (h.relations r hr).1
    · cases List.mem_singleton.1 hv
      exact (h.relations r hr).2
  · rintro ⟨⟨⟨⟨hstack, hvars⟩, hconstraints⟩, hrelations⟩, hexit⟩
    exact ⟨hstack, hvars, hconstraints, fun r hr =>
      ⟨hrelations _ ⟨r, hr, .head _⟩, hrelations _ ⟨r, hr, .tail _ (.head _)⟩⟩, hexit⟩

theorem All.imp (h : s.All P) (hPQ : ∀ v, P v → Q v) : s.All Q where
  stack v hv := hPQ v (h.stack v hv)
  vars e he := hPQ _ (h.vars e he)
  constraints e he := hPQ _ (h.constraints e he)
  relations r hr := (h.relations r hr).imp (hPQ _) (hPQ _)
  exit v hv := hPQ v (h.exit v hv)

theorem value?_eq_some {var : String} : s.value? var = some v ↔ (var, v) ∈ s.vars.toList := by
  simp only [value?, Option.map_eq_some_iff, Keyed.find?_eq_some_iff,
    Std.LawfulEqCmp.compare_eq_iff_eq]
  constructor
  · rintro ⟨⟨_, _⟩, ⟨he, rfl⟩, rfl⟩
    exact he
  · intro he
    exact ⟨_, ⟨he, rfl⟩, rfl⟩

theorem All.put (h : s.All P) {var : String} (hv : P v) : (s.put var v).All P := by
  refine ⟨h.stack, fun e he => ?_, h.constraints, h.relations, h.exit⟩
  rcases Keyed.mem_insert_iff.1 he with rfl | ⟨he, _⟩
  · exact hv
  · exact h.vars e he

theorem All.constrain? {t : State} (h : s.All P) (hv : P v) {c : Constraint}
    (ht : s.constrain? v c = some t) : t.All P := by
  unfold State.constrain? at ht
  dsimp only at ht
  split at ht
  · split at ht
    · cases ht
      exact h
    · contradiction
  · cases ht
    refine ⟨h.stack, h.vars, fun e he => ?_, h.relations, h.exit⟩
    rcases Keyed.mem_insert_iff.1 he with rfl | ⟨he, _⟩
    · exact hv
    · exact h.constraints e he

theorem All.release (h : s.All P) (hv : P v) (d : Domain) : (s.release v d).All P := by
  unfold State.release
  split
  · exact h
  · dsimp only
    split
    · refine ⟨h.stack, h.vars, fun e he => h.constraints e ?_, h.relations, h.exit⟩
      exact (List.mem_filter.1 he).1
    · refine ⟨h.stack, h.vars, fun e he => ?_, h.relations, h.exit⟩
      rcases Keyed.mem_insert_iff.1 he with rfl | ⟨he, _⟩
      · exact hv
      · exact h.constraints e he

theorem All.learn (h : s.All P) {r : Relation} (hl : P r.left) (hr : P r.right) :
    (s.learn r).All P := by
  refine ⟨h.stack, h.vars, h.constraints, fun r' hr' => ?_, h.exit⟩
  rcases Relations.mem_insert hr' with rfl | hr'
  · exact ⟨hl, hr⟩
  · exact h.relations r' hr'

theorem All.cleanup (h : s.All P) : s.cleanup.All P where
  stack := h.stack
  vars := h.vars
  constraints e he := h.constraints e (List.mem_filter.1 he).1
  relations r hr := h.relations r (List.mem_filter.1 hr).1
  exit := h.exit

theorem toList_constraints_empty : State.empty.constraints.toList = [
    (.null, .ofList [.null]), (.true, .ofList [.notNull, .truth true]),
    (.false, .ofList [.notNull, .truth false])] := rfl

theorem all_empty (hconstants : P .null ∧ P .true ∧ P .false) : State.empty.All P := by
  refine ⟨nofun, nofun, fun e he => ?_, nofun, nofun⟩
  rw [toList_constraints_empty] at he
  simp only [List.mem_cons, List.not_mem_nil, or_false] at he
  rcases he with rfl | rfl | rfl
  · exact hconstants.1
  · exact hconstants.2.1
  · exact hconstants.2.2

theorem stable_all (hoperand : ∀ {v w}, P v → w ∈ v.operands → P w) : Stable P (All P) where
  operand := hoperand
  known hs hr := hs.relations _ hr
  constrain hs hv ht := hs.constrain? hv ht
  release hs hv := hs.release hv _
  learn hs hl hr := hs.learn hl hr

theorem durable_all (hoperand : ∀ {v w}, P v → w ∈ v.operands → P w)
    (hconstants : P .null ∧ P .true ∧ P .false)
    (hrelational : ∀ {k l r}, P l → P r → P (.relational k l r)) : Durable P (All P) where
  toEnduring := (stable_all hoperand).enduring
  constants := hconstants
  relational := hrelational
  stacked hs hv := hs.stack _ hv
  bound hs hv := hs.vars _ (value?_eq_some.1 hv)
  drop _ hs :=
    ⟨fun v hv => hs.stack v (List.mem_of_mem_drop hv), hs.vars, hs.constraints, hs.relations,
      hs.exit⟩
  push hs hv :=
    ⟨List.forall_mem_cons.2 ⟨hv, hs.stack⟩, hs.vars, hs.constraints, hs.relations, hs.exit⟩
  put hs hv := hs.put hv

theorem durable_listed (h : [.null, .true, .false] <+: made) :
    Durable (Value.Listed made) (All (Value.Listed made)) :=
  durable_all (fun hv hw => (Value.listed_iff.1 hv).2 _ hw) (Value.listed_constants h)
    Value.listed_relational

end State

namespace Exploration

variable {detectors : List Detector} {o : Options} {flow : ControlFlow} {done : List NodeId}
  {x : Exploration}

/-- What the supply has handed out is all that has an id in the graph. -/
structure Recorded (x : Exploration) (made : List Value) : Prop where
  issued : x.supply.Issued made
  node : ∀ {id node}, x.graph.node? id = some node → node.state.All (Value.Listed made)

theorem recorded_start (o : Options) (flow : ControlFlow) : ∃ made, (start o flow).Recorded made := by
  have hput {s : State} {left : Supply} (p : Parameter) (v : Value)
      (hv : v = .simple left.next ∨ v = .boolean left.next)
      (h : ∃ made, left.Issued made ∧ s.All (Value.Listed made)) :
      ∃ made, Supply.Issued ⟨left.next + 1⟩ made ∧ (s.put p.name v).All (Value.Listed made) := by
    obtain ⟨made, hissued, hs⟩ := h
    have hserves : left.Serves s [v] ⟨left.next + 1⟩ := by
      rcases hv with rfl | rfl
      · exact .cons .fresh (List.forall_mem_nil _) (.nil _)
      · exact .cons .freshBoolean (List.forall_mem_nil _) (.nil _)
    have hs' : s.All (Value.Listed (made ++ [v])) :=
      hs.imp fun w hw => hw.mono (List.prefix_append _ _)
    exact ⟨_, hissued.append hserves,
      hs'.put (hserves.listed hissued.length hs.stack v (.head _))⟩
  obtain ⟨made, hissued, hs⟩ : ∃ made, (start o flow).supply.Issued made ∧
      (State.initial flow.parameters {}).1.All (Value.Listed made) :=
    State.initial_induction
      (I := fun _ s left => ∃ made, left.Issued made ∧ s.All (Value.Listed made))
      ⟨_, Supply.issued_start, State.all_empty (Value.listed_constants (List.prefix_refl _))⟩
      hput flow.parameters
  refine ⟨made, hissued, fun hnode => ?_⟩
  obtain ⟨rfl, rfl⟩ := start_node? hnode
  exact ⟨hs.stack, hs.vars, hs.constraints, hs.relations, hs.exit⟩

theorem all_enqueue {p : Point} {s : State} {e : Edge} (hs : s.All P)
    (hx : ∀ {id node}, x.graph.node? id = some node → node.state.All P) {id : NodeId} {node : Node}
    (hnode : (x.enqueue o p s e).graph.node? id = some node) : node.state.All P := by
  rcases enqueue_cases o x p s e with ⟨i, _, h⟩ | ⟨_, _, h, _⟩ | ⟨_, _, h⟩
  · rw [h] at hnode
    obtain ⟨node', hnode', _, hstate, _⟩ := Graph.node?_addParent_eq_some hnode
    exact hstate ▸ hx hnode'
  · exact hx (h ▸ hnode)
  · rw [h] at hnode
    rcases Graph.node?_insert_eq_some hnode with hnode | ⟨_, rfl⟩
    · exact hx hnode
    · have hclean := hs.cleanup
      exact ⟨hclean.stack, hclean.vars, hclean.constraints, hclean.relations, hclean.exit⟩

/-- A record is continued by what each step makes. -/
theorem Reached.recorded (hdetectors : ∀ {P I}, Exposed P I → ∀ d ∈ detectors, d.Keeps I)
    {failure? : Option Failure} (h : Reached detectors o flow done x failure?) :
    ∃ made, x.Recorded made := by
  induction h with
  | start => exact recorded_start o flow
  | @step _ x id pending node y _ _ _ hnode hstep ih =>
    obtain ⟨made, hmade⟩ := ih
    cases step_stepped hstep with
    | failed hquiet hsupply =>
      exact ⟨made, hsupply ▸ hmade.issued, fun hn => hmade.node (hquiet.graph ▸ hn)⟩
    | sunk _ hquiet hsupply =>
      exact ⟨made, hsupply ▸ hmade.issued, fun hn => hmade.node (hquiet.graph ▸ hn)⟩
    | @performed element s successors _ helement hadjusted hyields henqueued =>
      obtain ⟨new, hserves, hkept⟩ := hyields.served
      have hissued : y.supply.Issued (made ++ new) := hmade.issued.append hserves
      have hdurable := State.durable_listed hmade.issued.constants
      have hdurable' := State.durable_listed hissued.constants
      have hmono {t : State} (ht : t.All (Value.Listed made)) : t.All (Value.Listed (made ++ new)) :=
        ht.imp fun v hv => hv.mono (List.prefix_append _ _)
      have hs := hadjusted.kept (hdetectors hdurable.toExposed) (hmade.node hnode)
      have hsuccessors := hkept hdurable' (hmono hs) (hserves.listed hmade.issued.length hs.stack)
        fun hadjusted => hadjusted.kept (hdetectors hdurable'.toExposed)
      refine ⟨made ++ new, hissued, fun hn => ?_⟩
      exact henqueued.induction (I := fun z => ∀ {id node}, z.graph.node? id = some node →
          node.state.All (Value.Listed (made ++ new)))
        (fun hquiet hz _ _ hn => hz (hquiet.graph ▸ hn)) (fun ha hz _ _ hn => all_enqueue ha hz hn)
        hsuccessors (fun hn => hmono (hmade.node hn)) hn

end Exploration

/-- The value occurs in the state of some node, at any depth. -/
def Graph.Mentions (g : Graph) (v : Value) : Prop :=
  ∃ id n, g.node? id = some n ∧ ∃ w ∈ n.state.values, v ∈ w.parts

theorem Exploration.Recorded.getElem?_of_mentions {x : Exploration} (h : x.Recorded made)
    {v : Value} (hv : x.graph.Mentions v) {id : Nat} (hid : v.id? = some id) :
    made[id]? = some v := by
  obtain ⟨i, n, hn, w, hw, hv⟩ := hv
  exact State.all_iff.1 (h.node hn) w hw v hv id hid

/-- At every moment of an exploration, an id that occurs was handed out before and belongs to one
value only, and the first ids are those of the literal constants. What the supply hands out from then
on occurs nowhere. A relation takes no id: the same comparison gives the same value again. -/
theorem ids_unique {first : Nat} {choices : List Detector.Choice} {detectors : List Detector}
    (hsetUp : Detector.Choice.setUpAll first choices = .ok detectors) {o : Options}
    {flow : ControlFlow} {done : List NodeId} {x : Exploration} {failure? : Option Failure}
    (h : Exploration.Reached detectors o flow done x failure?) :
    (∀ v id, x.graph.Mentions v → v.id? = some id → id < x.supply.next ∧
        (v = .null ∨ v = .true ∨ v = .false ∨ Value.firstFreeId ≤ id)) ∧
      (∀ v w id, x.graph.Mentions v → x.graph.Mentions w → v.id? = some id → w.id? = some id →
        v = w) ∧
      ∀ later v, x.supply.next ≤ later.next → Supply.Offers later v → ¬ x.graph.Mentions v := by
  obtain ⟨made, hmade⟩ := h.recorded fun hexposed d hd => by
    obtain ⟨c, id, hc⟩ := Detector.Choice.exists_setUp hsetUp hd
    exact Detector.Choice.keeps hexposed hc
  have hlt {v : Value} {id : Nat} (hv : x.graph.Mentions v) (hid : v.id? = some id) :
      id < x.supply.next := by
    rw [hmade.issued.length]
    exact (List.getElem?_eq_some_iff.1 (hmade.getElem?_of_mentions hv hid)).1
  refine ⟨fun v id hv hid => ⟨hlt hv hid, ?_⟩, fun v w id hv hw hid hid' => ?_, ?_⟩
  · have hget := hmade.getElem?_of_mentions hv hid
    obtain ⟨rest, rfl⟩ := hmade.issued.constants
    rcases id with _ | _ | _ | id
    · cases hget
      exact .inl rfl
    · cases hget
      exact .inr (.inl rfl)
    · cases hget
      exact .inr (.inr (.inl rfl))
    · exact .inr (.inr (.inr (Nat.le_add_left _ _)))
  · have hget := hmade.getElem?_of_mentions hv hid
    rw [hmade.getElem?_of_mentions hw hid'] at hget
    exact (Option.some.inj hget).symm
  · intro later v hle hoffers hv
    exact absurd (hlt hv hoffers.id?_eq) (Nat.not_lt_of_le hle)

def ControlFlow.negation : ControlFlow where
  routine := {
    name := "negation"
    parameters := [⟨"a", .boolean, .unknown⟩, ⟨"b", .boolean, .unknown⟩]
    entry := 0
    blocks := [
      { id := 0
        instructions := [.read "a" .unknown, .read "b" .unknown, .binary .and .unknown,
          .unary .not .unknown]
        terminator := .ret true .unknown }] }
  nodup := by decide
  entry_mem := by decide
  targets_mem _ hb _ hid := Routine.missingTarget?_eq_none (by decide) hb hid

open Exploration Detector in
theorem ids_unique_negation :
    ∃ done x, Reached [NullDereference.detector, DivisionByZero.detector 0] {} .negation done x none ∧
      x.supply.next = 7 ∧ x.graph.Mentions (.not 6 (.binary 5 .and (.simple 3) (.simple 4))) ∧
      (∀ w, x.graph.Mentions w → w.id? = some 5 → w = .binary 5 .and (.simple 3) (.simple 4)) ∧
      ¬ x.graph.Mentions x.supply.fresh.1 := by
  have hmoment : (moment? [NullDereference.detector, DivisionByZero.detector 0] {} .negation 4).any
      fun m => m.2.supply.next = 7 ∧ (m.2.graph.node? 4).any fun n =>
        n.state.stack = [.not 6 (.binary 5 .and (.simple 3) (.simple 4))] := by
    decide +kernel
  obtain ⟨⟨done, x⟩, hmoment, hx⟩ := (Option.any_eq_true _ _).1 hmoment
  obtain ⟨hnext, hnode⟩ := of_decide_eq_true hx
  obtain ⟨n, hn, hstack⟩ := (Option.any_eq_true _ _).1 hnode
  have hsetUp : Choice.setUpAll 0 [.nullDereference, .divisionByZero] =
      .ok [NullDereference.detector, DivisionByZero.detector 0] := rfl
  have hreached := reached_of_moment? hmoment
  obtain ⟨_, hunique, hfresh⟩ := ids_unique hsetUp hreached
  have hmem : .not 6 (.binary 5 .and (.simple 3) (.simple 4)) ∈ n.state.values := by
    rw [State.values, of_decide_eq_true hstack]
    exact .head _
  refine ⟨done, x, hreached, hnext, ⟨4, n, hn, _, hmem, .head _⟩, fun w hw hid => ?_, ?_⟩
  · exact hunique w _ 5 hw ⟨4, n, hn, _, hmem, .tail _ (.head _)⟩ hid rfl
  · exact hfresh x.supply _ (Nat.le_refl _) .fresh

end Pathwise
