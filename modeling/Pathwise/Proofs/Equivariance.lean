import Pathwise.Proofs.Forgetting
import Pathwise.Proofs.Outcomes
import Pathwise.Proofs.Renaming

namespace Pathwise

namespace Bindings

variable (π : Renaming) (b : Bindings)

def rename (π : Renaming) (b : Bindings) : Bindings :=
  b.map (fun e : String × Value => (e.1, e.2.rename π)) fun _ _ => rfl

theorem find?_rename (var : String) :
    (b.rename π).find? var = (b.find? var).map fun e => (e.1, e.2.rename π) :=
  Keyed.find?_map fun _ => rfl

theorem insert_rename (var : String) (v : Value) :
    (b.rename π).insert (var, v.rename π) = Bindings.rename π (b.insert (var, v)) :=
  Keyed.map_insert (f := fun e : String × Value => (e.1, e.2.rename π)) (var, v)

end Bindings

namespace Constraints

variable (π : Renaming) (c : Constraints) (v : Value)

def rename (π : Renaming) (c : Constraints) : Constraints :=
  c.map (fun e : Value × ConstraintSet => (e.1.rename π, e.2)) fun a b =>
    Value.compare_rename π a.1 b.1

theorem find?_rename :
    (c.rename π).find? (v.rename π).toClass =
      (c.find? v.toClass).map fun e => (e.1.rename π, e.2) :=
  Keyed.find?_map fun e => Value.compare_rename π e.1 v

theorem insert_rename (held : ConstraintSet) :
    (c.rename π).insert (v.rename π, held) = Constraints.rename π (c.insert (v, held)) :=
  Keyed.map_insert (f := fun e : Value × ConstraintSet => (e.1.rename π, e.2)) (v, held)

theorem erase_rename :
    (c.rename π).erase (v.rename π).toClass = Constraints.rename π (c.erase v.toClass) :=
  Keyed.map_erase fun e => Value.compare_rename π e.1 v

end Constraints

namespace State

def rename (π : Renaming) (visits : Visits) (s : State) : State where
  stack := s.stack.map (Value.rename π)
  vars := s.vars.rename π
  constraints := s.constraints.rename π
  relations := s.relations.rename π
  exit? := s.exit?.map (Value.rename π)
  visits

variable (π : Renaming) (visits : Visits) (s : State) (v : Value)

theorem value?_rename (var : String) :
    (s.rename π visits).value? var = (s.value? var).map (Value.rename π) := by
  simp only [value?, rename, Bindings.find?_rename, Option.map_map]
  rfl

theorem put_rename (var : String) :
    (s.rename π visits).put var (v.rename π) = (s.put var v).rename π visits :=
  congrArg (fun vars => { s.rename π visits with vars }) (Bindings.insert_rename π s.vars var v)

theorem push_rename : (s.rename π visits).push (v.rename π) = (s.push v).rename π visits := rfl

theorem pop_rename :
    (s.rename π visits).pop =
      s.pop.map fun (t, v) => (t.rename π visits, v.rename π) := by
  obtain ⟨stack, vars, constraints, relations, exit?, _⟩ := s
  cases stack with
  | nil => rfl
  | cons => rfl

theorem unstack_rename (n : Nat) :
    (s.rename π visits).unstack n =
      (s.unstack n).map fun (t, vs) => (t.rename π visits, vs.map (Value.rename π)) := by
  have hlength : (s.rename π visits).stack.length = s.stack.length := List.length_map ..
  unfold unstack
  rw [hlength]
  split
  · simp only [rename, ← List.map_take, ← List.map_drop, ← List.map_reverse]
    rfl
  · rfl

theorem learn_rename (r : Relation) :
    (s.rename π visits).learn (r.rename π) = (s.learn r).rename π visits :=
  congrArg (fun relations => { s.rename π visits with relations }) (Relations.insert_rename π _ r)

theorem constraintsOf?_rename :
    (s.rename π visits).constraintsOf? (v.rename π) = s.constraintsOf? v := by
  simp only [constraintsOf?, rename, Constraints.find?_rename, Option.map_map]
  rfl

theorem constraint?_rename (d : Domain) :
    (s.rename π visits).constraint? (v.rename π) d = s.constraint? v d := by
  rw [constraint?, constraintsOf?_rename, constraint?]

theorem constrain?_rename (c : Constraint) :
    (s.rename π visits).constrain? (v.rename π) c =
      (s.constrain? v c).map (rename π visits) := by
  simp only [constrain?, constraintsOf?_rename]
  split
  · split <;> rfl
  · simp only [rename, Constraints.insert_rename]
    rfl

theorem constrain_rename (c : Constraint) :
    (s.rename π visits).constrain (v.rename π) c = (s.constrain v c).rename π visits := by
  rw [constrain, constrain?_rename, constrain]
  cases s.constrain? v c with
  | none => rfl
  | some t => rfl

theorem release_rename (d : Domain) :
    (s.rename π visits).release (v.rename π) d = (s.release v d).rename π visits := by
  simp only [release, constraintsOf?_rename]
  split
  · rfl
  · split
    · simp only [rename, Constraints.erase_rename]
    · simp only [rename, Constraints.insert_rename]

@[simp] theorem canReach_rename : (s.rename π visits).canReach (v.rename π) = s.canReach v := by
  have hroots : (s.rename π visits).roots = s.roots.map (Value.rename π) := by
    simp only [roots, rename, Bindings.rename, Keyed.toList_map, List.map_append, List.map_map]
    cases s.exit? with
    | none => rfl
    | some v => rfl
  simp only [canReach, hroots, List.any_map, Function.comp_def, Value.references_rename]

theorem cleanup_rename : (s.rename π visits).cleanup = s.cleanup.rename π visits := by
  have hconstraints : (s.constraints.rename π).filter (fun e =>
        e.1.isConstant || (s.rename π visits).canReach e.1 || !e.2.isDisposable) =
      Constraints.rename π (s.constraints.filter fun e =>
        e.1.isConstant || s.canReach e.1 || !e.2.isDisposable) :=
    Keyed.map_filter fun e => by simp only [Value.isConstant_rename, canReach_rename]
  have hrelations : (s.relations.rename π).filter (fun r =>
        !r.left.isConstant && (s.rename π visits).canReach r.left ||
          !r.right.isConstant && (s.rename π visits).canReach r.right) =
      Relations.rename π (s.relations.filter fun r =>
        !r.left.isConstant && s.canReach r.left || !r.right.isConstant && s.canReach r.right) :=
    Keyed.map_filter fun r => by
      simp only [Relation.left_rename, Relation.right_rename, Value.isConstant_rename,
        canReach_rename]
  rw [cleanup_eq, cleanup_eq]
  change State.mk _ _ ((s.constraints.rename π).filter _) ((s.relations.rename π).filter _) _ _ = _
  rw [hconstraints, hrelations]
  rfl

theorem nestingLimit_rename :
    (s.rename π visits).nestingLimit (v.rename π) = s.nestingLimit v := by
  simp only [nestingLimit, rename, Relations.toList_rename, Constraints.rename, Keyed.toList_map,
    List.foldl_map, Relation.left_rename, Relation.right_rename, Value.size_rename]

end State

namespace Outcomes

/-- The outcomes of `g` on renamed states are the renamed outcomes of `f`. -/
def Follows (π : Renaming) (visits : Visits) (f g : State → Outcomes) : Prop :=
  ∀ s, g (s.rename π visits) = (f s).map (List.map (State.rename π visits))

variable {π : Renaming} {visits : Visits} {f f' g g' : State → Outcomes}

theorem Follows.each (h : Follows π visits f f') (states : List State) :
    Outcomes.each f' (states.map (State.rename π visits)) =
      (Outcomes.each f states).map (List.map (State.rename π visits)) := by
  induction states with
  | nil => rfl
  | cons s states ih =>
    rw [List.map_cons, each_cons, each_cons, h s, ih]
    cases f s with
    | error => rfl
    | ok a =>
      cases Outcomes.each f states with
      | error => rfl
      | ok b => exact congrArg Except.ok List.map_append.symm

theorem Follows.both (hf : Follows π visits f f') (hg : Follows π visits g g') :
    Follows π visits (Outcomes.both f g) (Outcomes.both f' g') := by
  intro s
  rw [Outcomes.both, hf s, Outcomes.both]
  cases f s with
  | error => rfl
  | ok a => exact hg.each a

theorem Follows.either (hf : Follows π visits f f') (hg : Follows π visits g g') :
    Follows π visits (Outcomes.either f g) (Outcomes.either f' g') := by
  intro s
  rw [Outcomes.either, hf s, hg s, Outcomes.either]
  cases f s with
  | error => rfl
  | ok a =>
    cases g s with
    | error => rfl
    | ok b => exact congrArg Except.ok List.map_append.symm

theorem Follows.foldlM {α β : Type} {F : α → State → Outcomes} {G : β → State → Outcomes}
    {h : α → β} (hF : ∀ a, Follows π visits (F a) (G (h a))) (as : List α) (states : List State) :
    (as.map h).foldlM (fun states b => Outcomes.each (G b) states)
        (states.map (State.rename π visits)) =
      (as.foldlM (fun states a => Outcomes.each (F a) states) states).map
        (List.map (State.rename π visits)) := by
  induction as generalizing states with
  | nil => rfl
  | cons a as ih =>
    rw [List.map_cons, List.foldlM_cons, List.foldlM_cons, (hF a).each]
    cases Outcomes.each (F a) states with
    | error => rfl
    | ok mid => exact ih mid

end Outcomes

open Outcomes

variable {π : Renaming} {visits : Visits}

theorem LogicalOp.split_follows {f f' g g' : Bool → State → Outcomes}
    (hf : ∀ b, Follows π visits (f b) (f' b)) (hg : ∀ b, Follows π visits (g b) (g' b))
    (op : LogicalOp) (b : Bool) : Follows π visits (op.split b f g) (op.split b f' g') :=
  op.split_related Follows.both Follows.either hf hg b

namespace Value

theorem constrain_follows (v : Value) (c : Constraint) :
    Follows π visits (fun s => .ok (s.constrain? v c).toList)
      (fun s => .ok (s.constrain? (v.rename π) c).toList) := by
  intro s
  dsimp only
  rw [State.constrain?_rename]
  cases s.constrain? v c with
  | none => rfl
  | some t => rfl

theorem constrain_then_follows {f f' : State → Outcomes} (hf : Follows π visits f f') (v : Value)
    (c : Constraint) :
    Follows π visits
      (fun s => match s.constrain? v c with
        | some s => f s
        | none => .ok [])
      (fun s => match s.constrain? (v.rename π) c with
        | some s => f' s
        | none => .ok []) := by
  intro s
  dsimp only
  rw [State.constrain?_rename]
  cases s.constrain? v c with
  | none => rfl
  | some t => exact hf t

variable {relate relate' : Relation → Bool → State → Outcomes}

theorem assumeTruth_follows
    (hrelate : ∀ r b, Follows π visits (relate r b) (relate' (r.rename π) b)) (v : Value)
    (b : Bool) :
    Follows π visits (v.assumeTruth relate b) ((v.rename π).assumeTruth relate' b) := by
  induction v generalizing b with
  | simple id => exact constrain_follows (simple id) (.truth b)
  | boolean id => exact constrain_follows (boolean id) (.truth b)
  | not id w ih => exact constrain_then_follows (ih _) (not id w) (.truth b)
  | binary id op l r ihl ihr =>
    exact constrain_then_follows (op.split_follows ihl ihr b) (binary id op l r) (.truth b)
  | relational k l r => exact hrelate ⟨k, l, r⟩ b

theorem assumeWith_follows
    (hrelate : ∀ r b, Follows π visits (relate r b) (relate' (r.rename π) b)) (v : Value)
    (c : Constraint) :
    Follows π visits (v.assumeWith relate c) ((v.rename π).assumeWith relate' c) := by
  unfold assumeWith
  cases c.truth? with
  | none => exact constrain_follows v c
  | some b => exact assumeTruth_follows hrelate v b

@[simp] theorem isBoolean_rename (v : Value) : (v.rename π).isBoolean = v.isBoolean := by
  cases v <;> rfl

end Value

namespace Relation

variable {assume assume' : Value → Constraint → State → Outcomes}
  (hassume : ∀ v c, Follows π visits (assume v c) (assume' (v.rename π) c)) (r : Relation)

include hassume

theorem impose_follows (target : Value) (held : ConstraintSet) :
    Follows π visits (r.impose assume target held)
      ((r.rename π).impose assume' (target.rename π) held) := by
  intro s
  have h := Follows.foldlM (h := id) (fun c => hassume target c)
    (held.toList.filterMap (·.copyOver r.kind)) [s]
  rwa [List.map_id] at h

theorem transfer_follows (a b : Value) :
    Follows π visits (r.transfer assume a b)
      ((r.rename π).transfer assume' (a.rename π) (b.rename π)) := by
  intro s
  simp only [transfer, State.constraintsOf?_rename]
  split
  · exact impose_follows hassume r b _ s
  · exact impose_follows hassume r a _ s
  · rfl

theorem orNull_follows (v : Value) (states : List State) :
    orNull assume' (v.rename π) (states.map (State.rename π visits)) =
      (orNull assume v states).map (List.map (State.rename π visits)) := by
  apply Follows.each
  intro s
  dsimp only
  rw [State.release_rename, hassume v .null]
  cases assume v .null (s.release v .boolean) with
  | error => rfl
  | ok nulls =>
    simp only [Except.map, bind, Except.bind, pure, Except.pure, List.map_append, List.map_cons,
      List.map_nil]

omit hassume in
theorem openOperand?_rename (s : State) :
    (r.rename π).openOperand? (s.rename π visits) = (r.openOperand? s).map (Value.rename π) := by
  simp only [openOperand?, kind_rename, left_rename, right_rename, State.constraint?_rename,
    Value.isBoolean_rename]
  split
  · split
    · split <;> rfl
    · split <;> rfl
    · rfl
  · split
    · split <;> rfl
    · split <;> rfl
    · rfl
  · rfl

theorem record_follows : Follows π visits (r.record assume) ((r.rename π).record assume') := by
  intro s
  have hlearn : (if (s.rename π visits).canReach (r.rename π).left ||
      (s.rename π visits).canReach (r.rename π).right then (s.rename π visits).learn (r.rename π)
      else s.rename π visits) =
      (if s.canReach r.left || s.canReach r.right then s.learn r else s).rename π visits := by
    simp only [left_rename, right_rename, State.canReach_rename, State.learn_rename]
    split <;> rfl
  unfold record
  dsimp only
  rw [hlearn, openOperand?_rename]
  generalize (if s.canReach r.left || s.canReach r.right then s.learn r else s) = t
  have htransfer := (transfer_follows hassume r r.left r.right).both
    (transfer_follows hassume r r.right r.left) t
  rw [left_rename, right_rename, htransfer]
  cases Outcomes.both (r.transfer assume r.left r.right) (r.transfer assume r.right r.left) t with
  | error => rfl
  | ok states =>
    cases r.openOperand? t with
    | none => rfl
    | some v => exact orNull_follows hassume v states

theorem assumeHolds_follows (budget : Budget) :
    Follows π visits (r.assumeHolds assume budget) ((r.rename π).assumeHolds assume' budget) := by
  intro s
  have hhas : (s.rename π visits).relations.has (r.rename π) = s.relations.has r :=
    Relations.has_rename π s.relations r
  have hclosure : (r.rename π).closure (s.rename π visits).relations budget =
      (r.closure s.relations budget).map (Relations.rename π) :=
    closure_rename π r s.relations budget
  rw [assumeHolds, hhas, hclosure, assumeHolds]
  split
  · rfl
  · cases r.closure s.relations budget with
    | error => rfl
    | ok found =>
      have himplied : (found.rename π).insert (r.rename π) =
          Relations.rename π (found.insert r) :=
        Relations.insert_rename π found r
      have hany : (Relations.rename π (found.insert r)).toList.any
          (fun i => i.resolve (s.rename π visits).relations == .unfulfilled) =
          (found.insert r).toList.any fun i => i.resolve s.relations == .unfulfilled := by
        simp only [State.rename, Relations.toList_rename, List.any_map, Function.comp_def,
          resolve_rename]
      simp only [Except.map, bind, Except.bind, himplied, hany]
      split
      · rfl
      · exact Follows.foldlM (record_follows hassume) (found.insert r).toList [s]

theorem assumeWith_follows (budget : Budget) (b : Bool) :
    Follows π visits (r.assumeWith assume budget b)
      ((r.rename π).assumeWith assume' budget b) := by
  cases b with
  | true => exact assumeHolds_follows hassume r budget
  | false => exact assumeHolds_follows hassume r.inverse budget

end Relation

theorem Value.assumeAt_follows (budget : Budget) (levels : Nat) (v : Value) (c : Constraint) :
    Follows π visits (v.assumeAt budget levels c) ((v.rename π).assumeAt budget levels c) := by
  induction levels generalizing v c with
  | zero => exact assumeWith_follows (fun _ _ _ => rfl) v c
  | succ levels ih =>
    exact assumeWith_follows (fun r b => Relation.assumeWith_follows ih r budget b) v c

/-- The outcomes of an assumption follow a renaming. -/
theorem Value.assume_follows (v : Value) (c : Constraint) (budget : Budget) :
    Follows π visits (v.assume c budget) ((v.rename π).assume c budget) := by
  intro s
  rw [assume, State.nestingLimit_rename, assume]
  exact assumeAt_follows budget _ v c s

end Pathwise
