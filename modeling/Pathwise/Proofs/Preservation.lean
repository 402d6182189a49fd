import Pathwise.Proofs.Step

namespace Pathwise

namespace State

theorem constrain?_eq_some {s t : State} {v : Value} {c : Constraint}
    (h : s.constrain? v c = some t) : ∃ constraints, t = { s with constraints } := by
  unfold constrain? at h
  dsimp only at h
  split at h
  · split at h
    · cases h
      exact ⟨_, rfl⟩
    · contradiction
  · cases h
    exact ⟨_, rfl⟩

theorem release_eq (s : State) (v : Value) (d : Domain) :
    ∃ constraints, s.release v d = { s with constraints } := by
  unfold release
  split
  · exact ⟨_, rfl⟩
  · dsimp only
    split <;> exact ⟨_, rfl⟩

end State

open Outcomes

/-- A property that is kept by assumptions about values with property `P` and by what detectors do to
their constraints. -/
structure Enduring (P : Value → Prop) (I : State → Prop) : Prop where
  known : ∀ {s r}, I s → r ∈ s.relations.toList → P r.left ∧ P r.right
  constrain : ∀ {s t v c}, I s → P v → s.constrain? v c = some t → I t
  release : ∀ {s v d}, I s → P v → I (s.release v d)
  assume : ∀ {v} c budget, P v → Preserves I (Value.assume v c budget)

/-- A property of states that give out values with property `P` only, on the stack and in
variables. -/
structure Exposed (P : Value → Prop) (I : State → Prop) : Prop extends Enduring P I where
  stacked : ∀ {s v}, I s → v ∈ s.stack → P v
  bound : ∀ {s var v}, I s → s.value? var = some v → P v

/-- A property that is kept by what assumptions and instructions do to values with property `P`. -/
structure Durable (P : Value → Prop) (I : State → Prop) : Prop extends Exposed P I where
  constants : P .null ∧ P .true ∧ P .false
  relational : ∀ {k l r}, P l → P r → P (.relational k l r)
  drop : ∀ {s} n, I s → I { s with stack := s.stack.drop n }
  push : ∀ {s v}, I s → P v → I (s.push v)
  put : ∀ {s var v}, I s → P v → I (s.put var v)

variable {P : Value → Prop} {I : State → Prop}

theorem Stable.enduring (h : Stable P I) : Enduring P I where
  known := h.known
  constrain := h.constrain
  release := h.release
  assume c budget hv := Value.assume_preserves h hv c budget

theorem Enduring.constrain_kept (h : Enduring P I) {s : State} {v : Value} (hs : I s) (hv : P v)
    (c : Constraint) : I (s.constrain v c) := by
  unfold State.constrain
  cases ht : s.constrain? v c with
  | none => exact hs
  | some t => exact h.constrain hs hv ht

namespace State

variable {s t : State} {v : Value}

theorem mem_stack_of_pop (h : s.pop = .ok (t, v)) : v ∈ s.stack := by
  unfold pop at h
  split at h
  next => contradiction
  next hstack =>
    cases h
    exact hstack ▸ .head _

theorem mem_stack_of_unstack {n : Nat} {vs : List Value} (h : s.unstack n = .ok (t, vs))
    (hv : v ∈ vs) : v ∈ s.stack := by
  unfold unstack at h
  split at h
  next =>
    cases h
    exact List.mem_of_mem_take (List.mem_reverse.1 hv)
  next => contradiction

end State

namespace Durable

variable {s t : State} {v : Value}

theorem pop_kept (h : Durable P I) (hs : I s) (hpop : s.pop = .ok (t, v)) : I t ∧ P v := by
  refine ⟨?_, h.stacked hs (State.mem_stack_of_pop hpop)⟩
  unfold State.pop at hpop
  split at hpop
  next => contradiction
  next hstack =>
    cases hpop
    have hdrop := h.drop 1 hs
    rw [hstack] at hdrop
    exact hdrop

theorem unstack_kept (h : Durable P I) (hs : I s) {n : Nat} {vs : List Value}
    (hunstack : s.unstack n = .ok (t, vs)) : I t ∧ ∀ w ∈ vs, P w := by
  refine ⟨?_, fun w hw => h.stacked hs (State.mem_stack_of_unstack hunstack hw)⟩
  unfold State.unstack at hunstack
  split at hunstack
  next =>
    cases hunstack
    exact h.drop n hs
  next => contradiction

end Durable

namespace Supply

inductive Offers (supply : Supply) : Value → Prop
  | fresh : Offers supply supply.fresh.1
  | freshBoolean : Offers supply supply.freshBoolean.1
  | not (v : Value) : Offers supply (supply.not v).1
  | binary (op : LogicalOp) (l r : Value) : Offers supply (supply.binary op l r).1

/-- The values are handed out one after the other, each computed from values on the stack of `s`. -/
inductive Serves (s : State) : Supply → List Value → Supply → Prop
  | nil (supply : Supply) : Serves s supply [] supply
  | cons {supply v vs left} : supply.Offers v → (∀ w ∈ v.operands, w ∈ s.stack) →
      Serves s ⟨supply.next + 1⟩ vs left → Serves s supply (v :: vs) left

variable {s : State} {supply left left' : Supply} {vs ws : List Value}

theorem serves_fresh (s : State) (supply : Supply) :
    supply.Serves s [supply.fresh.1] supply.fresh.2 :=
  .cons .fresh (List.forall_mem_nil _) (.nil _)

theorem serves_ofType (s : State) (supply : Supply) (type : ValueType) :
    supply.Serves s [(supply.ofType type).1] (supply.ofType type).2 := by
  unfold ofType
  split
  · exact .cons .freshBoolean (List.forall_mem_nil _) (.nil _)
  · exact serves_fresh s supply

theorem Serves.append (h : supply.Serves s vs left) (h' : left.Serves s ws left') :
    supply.Serves s (vs ++ ws) left' := by
  induction h with
  | nil => exact h'
  | cons hoffers hoperands _ ih => exact .cons hoffers hoperands (ih h')

theorem Serves.next_eq (h : supply.Serves s vs left) : left.next = supply.next + vs.length := by
  induction h with
  | nil => rfl
  | cons _ _ _ ih => rw [ih, List.length_cons, Nat.add_assoc, Nat.add_comm 1]

theorem Serves.next_le (h : supply.Serves s vs left) : supply.next ≤ left.next :=
  h.next_eq ▸ Nat.le_add_right _ _

end Supply

theorem BinaryOp.apply_served (op : BinaryOp) {s : State} {l r : Value} (hl : l ∈ s.stack)
    (hr : r ∈ s.stack) (supply : Supply) :
    ∃ made, supply.Serves s made (op.apply l r supply).2 ∧
      ∀ {P I}, Durable P I → P l → P r → (∀ v ∈ made, P v) → P (op.apply l r supply).1 := by
  have hoperands : ∀ w ∈ [l, r], w ∈ s.stack :=
    List.forall_mem_cons.2 ⟨hl, List.forall_mem_cons.2 ⟨hr, List.forall_mem_nil _⟩⟩
  cases op with
  | equal | notEqual | lessThan | greaterOrEqual =>
    exact ⟨[], .nil supply, fun h hl hr _ => h.relational hl hr⟩
  | greaterThan | lessOrEqual => exact ⟨[], .nil supply, fun h hl hr _ => h.relational hr hl⟩
  | and | or | xor =>
    exact ⟨[_], .cons (.binary _ l r) hoperands (.nil _), fun _ _ _ hmade => hmade _ (.head _)⟩
  | plus | minus | multiply | divide | remainder =>
    exact ⟨[_], supply.serves_fresh s, fun _ _ _ hmade => hmade _ (.head _)⟩

namespace Instruction

variable {i : Instruction} {s t : State}

theorem abrupt?_kept (h : Durable P I) (hs : I s) (habrupt : i.abrupt? s = .ok (some t)) : I t := by
  unfold abrupt? at habrupt
  split at habrupt
  · split at habrupt
    · obtain ⟨⟨u, vs⟩, hu, habrupt⟩ := bind_eq_ok.1 habrupt
      cases habrupt
      exact (h.unstack_kept hs hu).1
    · cases habrupt
  · cases habrupt

/-- What an instruction does to a state, it does with the values there and with those that the supply
hands out for it. -/
theorem execute_served {supply left : Supply} (hexecute : i.execute s supply = .ok (t, left)) :
    ∃ made, supply.Serves s made left ∧
      ∀ {P I}, Durable P I → I s → (∀ v ∈ made, P v) → I t := by
  cases i with
  | literal value pos =>
    rcases value with _ | ⟨_ | _⟩ | _ | _ | _ <;> cases hexecute
    · exact ⟨[], .nil _, fun h hs _ => h.push hs h.constants.1⟩
    · exact ⟨[], .nil _, fun h hs _ => h.push hs h.constants.2.2⟩
    · exact ⟨[], .nil _, fun h hs _ => h.push hs h.constants.2.1⟩
    · exact ⟨_, supply.serves_fresh s, fun h hs hmade => h.push hs (hmade _ (.head _))⟩
    · exact ⟨_, supply.serves_fresh s, fun h hs hmade => h.push hs (hmade _ (.head _))⟩
    · refine ⟨_, supply.serves_fresh s, fun h hs hmade => ?_⟩
      exact h.push (h.constrain_kept hs (hmade _ (.head _)) _) (hmade _ (.head _))
  | read var pos =>
    simp only [execute] at hexecute
    split at hexecute
    next v hv =>
      cases hexecute
      exact ⟨[], .nil _, fun h hs _ => h.push hs (h.bound hs hv)⟩
    next => contradiction
  | assign var pos =>
    obtain ⟨⟨u, v⟩, hpop, hexecute⟩ := bind_eq_ok.1 hexecute
    cases hexecute
    refine ⟨[], .nil _, fun h hs _ => ?_⟩
    obtain ⟨hu, hv⟩ := h.pop_kept hs hpop
    exact h.put hu hv
  | pop pos =>
    obtain ⟨⟨u, v⟩, hpop, hexecute⟩ := bind_eq_ok.1 hexecute
    cases hexecute
    exact ⟨[], .nil _, fun h hs _ => (h.pop_kept hs hpop).1⟩
  | newObject method arguments pos =>
    obtain ⟨⟨u, vs⟩, hunstack, hexecute⟩ := bind_eq_ok.1 hexecute
    cases hexecute
    refine ⟨_, supply.serves_fresh s, fun h hs hmade => ?_⟩
    have hu := (h.unstack_kept hs hunstack).1
    exact h.push (h.constrain_kept hu (hmade _ (.head _)) _) (hmade _ (.head _))
  | invoke method receiver arguments pos =>
    obtain ⟨⟨u, vs⟩, hunstack, hexecute⟩ := bind_eq_ok.1 hexecute
    dsimp only at hexecute
    split at hexecute
    next l r _ =>
      cases hexecute
      refine ⟨[], .nil _, fun h hs _ => ?_⟩
      obtain ⟨hu, hvs⟩ := h.unstack_kept hs hunstack
      exact h.push hu (h.relational (hvs l (by simp)) (hvs r (by simp)))
    next =>
      split at hexecute
      · cases hexecute
        exact ⟨[], .nil _, fun h hs _ => (h.unstack_kept hs hunstack).1⟩
      · cases hexecute
        refine ⟨_, supply.serves_ofType s method.returns, fun h hs hmade => ?_⟩
        exact h.push (h.unstack_kept hs hunstack).1 (hmade _ (.head _))
  | memberSelect field type pos =>
    obtain ⟨⟨u, v⟩, hpop, hexecute⟩ := bind_eq_ok.1 hexecute
    cases hexecute
    refine ⟨_, supply.serves_ofType s type, fun h hs hmade => ?_⟩
    exact h.push (h.pop_kept hs hpop).1 (hmade _ (.head _))
  | binary op pos =>
    obtain ⟨⟨u, vs⟩, hunstack, hexecute⟩ := bind_eq_ok.1 hexecute
    rcases vs with _ | ⟨l, _ | ⟨r, _ | _⟩⟩ <;> cases hexecute
    · exact ⟨[], .nil _, fun h hs _ => (h.unstack_kept hs hunstack).1⟩
    · exact ⟨[], .nil _, fun h hs _ => (h.unstack_kept hs hunstack).1⟩
    · have hl := State.mem_stack_of_unstack hunstack (.head _)
      have hr := State.mem_stack_of_unstack hunstack (.tail _ (.head _))
      obtain ⟨made, hserves, hmade⟩ := op.apply_served hl hr supply
      refine ⟨made, hserves, fun h hs hP => ?_⟩
      exact h.push (h.unstack_kept hs hunstack).1 (hmade h (h.stacked hs hl) (h.stacked hs hr) hP)
    · exact ⟨[], .nil _, fun h hs _ => (h.unstack_kept hs hunstack).1⟩
  | unary op pos =>
    obtain ⟨⟨u, v⟩, hpop, hexecute⟩ := bind_eq_ok.1 hexecute
    have hv : ∀ w ∈ [v], w ∈ s.stack :=
      List.forall_mem_cons.2 ⟨State.mem_stack_of_pop hpop, List.forall_mem_nil _⟩
    cases hexecute
    cases op with
    | not =>
      refine ⟨_, .cons (.not v) hv (.nil _), fun h hs hmade => ?_⟩
      exact h.push (h.pop_kept hs hpop).1 (hmade _ (.head _))
    | negate =>
      refine ⟨_, supply.serves_fresh s, fun h hs hmade => ?_⟩
      exact h.push (h.pop_kept hs hpop).1 (hmade _ (.head _))

end Instruction

theorem thrownTo_kept (h : Durable P I) {handlers : List BlockId} {s : State} {exception : Value}
    (hs : I s) (hexception : P exception) :
    ∀ a ∈ thrownTo handlers s exception, I a.state := by
  intro a ha
  obtain ⟨handler, _, rfl⟩ := List.mem_map.1 ha
  exact h.push (h.constrain_kept hs hexception _) hexception

theorem Throws.served {o : Options} {flow : ControlFlow} {p : Point} {s : State}
    {supply left : Supply} {i : Instruction} {thrown : List Successor}
    (hthrows : Throws o flow p s supply i thrown left) :
    ∃ made, supply.Serves s made left ∧
      ∀ {P I}, Durable P I → I s → (∀ v ∈ made, P v) → ∀ a ∈ thrown, I a.state := by
  cases hthrows with
  | quiet => exact ⟨[], .nil _, fun _ _ _ => List.forall_mem_nil _⟩
  | thrown _ habrupt _ =>
    refine ⟨_, supply.serves_fresh s, fun h hs hmade => ?_⟩
    exact thrownTo_kept h (i.abrupt?_kept h hs habrupt) (hmade _ (.head _))

/-- Successors have what the state that they come from has, if the values made on the way have what
its values have and detectors do not interfere. -/
theorem Yields.served {detectors : List Detector} {o : Options} {flow : ControlFlow} {p : Point}
    {s : State} {supply left : Supply} {element : Element} {successors : List Successor}
    (hyields : Yields detectors o flow p s supply element successors left) :
    ∃ made, supply.Serves s made left ∧
      ∀ {P I}, Durable P I → I s → (∀ v ∈ made, P v) →
        (∀ {t u}, Adjusted detectors t u → I t → I u) → ∀ a ∈ successors, I a.state := by
  cases hyields with
  | next hthrows hexecute hadjusted =>
    obtain ⟨made, hserves, hthrown⟩ := hthrows.served
    obtain ⟨made', hserves', hnext⟩ := Instruction.execute_served hexecute
    refine ⟨made ++ made', hserves.append hserves', fun h hs hmade hdetectors a ha => ?_⟩
    obtain ⟨hmade, hmade'⟩ := List.forall_mem_append.1 hmade
    rcases List.mem_append.1 ha with ha | ha
    · exact hthrown h hs hmade a ha
    · cases List.mem_singleton.1 ha
      exact hdetectors hadjusted (hnext h hs hmade')
  | stopped _ hthrows hexecute =>
    obtain ⟨made, hserves, hthrown⟩ := hthrows.served
    obtain ⟨made', hserves', _⟩ := Instruction.execute_served hexecute
    refine ⟨made ++ made', hserves.append hserves', fun h hs hmade _ => ?_⟩
    exact hthrown h hs (List.forall_mem_append.1 hmade).1
  | goto =>
    refine ⟨[], .nil _, fun _ hs _ _ a ha => ?_⟩
    cases List.mem_singleton.1 ha
    exact hs
  | branch hpop hfalse htrue =>
    refine ⟨[], .nil _, fun h hs _ _ a ha => ?_⟩
    obtain ⟨ht, hcondition⟩ := h.pop_kept hs hpop
    rcases List.mem_append.1 ha with ha | ha
    · obtain ⟨u, hu, rfl⟩ := List.mem_map.1 ha
      exact h.assume _ _ hcondition ht hfalse u hu
    · obtain ⟨u, hu, rfl⟩ := List.mem_map.1 ha
      exact h.assume _ _ hcondition ht htrue u hu
  | ret | exit => exact ⟨[], .nil _, fun _ _ _ _ => List.forall_mem_nil _⟩
  | throw hpop _ =>
    refine ⟨[], .nil _, fun h hs _ _ => ?_⟩
    obtain ⟨ht, hexception⟩ := h.pop_kept hs hpop
    exact thrownTo_kept h ht hexception

end Pathwise
