import Pathwise.Constraint
import Pathwise.Failure
import Pathwise.Program
import Pathwise.Relation

namespace Pathwise

/-- Variables with their values, by name. -/
abbrev Bindings := Keyed (Prod.fst : String × Value → String)

/-- Values with their constraints, in the order of values. -/
abbrev Constraints := Keyed (fun e : Value × ConstraintSet => e.1.toClass)

/-- A set of values. -/
abbrev Values := Keyed Value.toClass

namespace Values

def has (seen : Values) (v : Value) : Bool := seen.contains v.toClass

/-- Adds a value with its operands at any depth. Those of a value seen before are not looked at. -/
def collect (seen : Values) (v : Value) : Values :=
  if seen.has v then seen
  else
    match v with
    | .simple _ | .boolean _ => seen.insert v
    | .not _ w => collect (seen.insert v) w
    | .binary _ _ l r => collect (collect (seen.insert v) l) r
    | .relational _ l r => collect (collect (seen.insert v) l) r

end Values

/-- Points with the number of times a path went through them. -/
abbrev Visits := Keyed (Prod.fst : Point × Nat → Point)

/-- What is known at one point of one path. How often the path went through each point is carried
along, and is no part of a state's identity. -/
structure State where
  /-- The top of the stack comes first. -/
  stack : List Value
  vars : Bindings
  constraints : Constraints
  relations : Relations
  /-- The exception by which the path leaves the routine. -/
  exit? : Option Value
  visits : Visits
  deriving DecidableEq

namespace State

/-- Only the literal constants are constrained. -/
def empty : State where
  stack := []
  vars := ∅
  constraints := .ofList [
    (.null, .ofList [.null]),
    (.true, .ofList [.notNull, .truth true]),
    (.false, .ofList [.notNull, .truth false])]
  relations := ∅
  exit? := none
  visits := ∅

/-- Agreement in all but the visits. -/
def Same (s t : State) : Prop :=
  s.stack.map Value.normal = t.stack.map Value.normal ∧
  s.vars.entries.map (fun e => (e.1, e.2.normal)) =
    t.vars.entries.map (fun e => (e.1, e.2.normal)) ∧
  s.constraints.entries.map (fun e => (e.1.normal, e.2)) =
    t.constraints.entries.map (fun e => (e.1.normal, e.2)) ∧
  s.relations.entries.map Relation.normal = t.relations.entries.map Relation.normal ∧
  s.exit?.map Value.normal = t.exit?.map Value.normal

instance : Setoid State where
  r := Same
  iseqv := {
    refl := fun _ => ⟨rfl, rfl, rfl, rfl, rfl⟩
    symm := fun ⟨a, b, c, d, e⟩ => ⟨a.symm, b.symm, c.symm, d.symm, e.symm⟩
    trans := fun ⟨a, b, c, d, e⟩ ⟨a', b', c', d', e'⟩ =>
      ⟨a.trans a', b.trans b', c.trans c', d.trans d', e.trans e'⟩ }

/-- Comparing two lists member by member is comparing their images, where the comparison of members
is that of their images. -/
theorem isEqv_iff_map_eq {α β : Type} {f : α → β} {p : α → α → Bool}
    (h : ∀ a b, p a b ↔ f a = f b) {as bs : List α} : as.isEqv bs p ↔ as.map f = bs.map f := by
  induction as generalizing bs with
  | nil => cases bs <;> simp [List.isEqv]
  | cons a as ih => cases bs <;> simp [List.isEqv, h, ih]

/-- Compares two states part by part, up to the first difference. -/
def agrees (s t : State) : Bool :=
  s.stack.isEqv t.stack (fun v w => decide (v ≈ w)) &&
  (s.vars.entries.isEqv t.vars.entries (fun a b => a.1 == b.1 && decide (a.2 ≈ b.2)) &&
  (s.constraints.entries.isEqv t.constraints.entries
    (fun a b => decide (a.1 ≈ b.1) && a.2 == b.2) &&
  (s.relations.entries.isEqv t.relations.entries (fun a b => decide (a ≈ b)) &&
  s.exit?.map Value.normal == t.exit?.map Value.normal)))

theorem agrees_iff {s t : State} : s.agrees t ↔ s ≈ t := by
  simp only [agrees, Bool.and_eq_true, beq_iff_eq]
  refine and_congr (isEqv_iff_map_eq fun v w => ?_) (and_congr (isEqv_iff_map_eq fun a b => ?_)
    (and_congr (isEqv_iff_map_eq fun a b => ?_) (and_congr_left' (isEqv_iff_map_eq fun a b => ?_))))
  · exact decide_eq_true_iff
  · rw [Bool.and_eq_true, beq_iff_eq, decide_eq_true_iff, Value.equiv_iff, Prod.mk.injEq]
  · rw [Bool.and_eq_true, beq_iff_eq, decide_eq_true_iff, Value.equiv_iff, Prod.mk.injEq]
  · exact decide_eq_true_iff

instance (s t : State) : Decidable (s ≈ t) := decidable_of_iff (s.agrees t) agrees_iff

def push (s : State) (v : Value) : State := { s with stack := v :: s.stack }

def peek (s : State) (depth : Nat) : Except Failure Value :=
  match s.stack[depth]? with
  | some v => .ok v
  | none => .error (.stackUnderflow (depth + 1) s.stack.length)

def peekMany (s : State) (n : Nat) : Except Failure (List Value) :=
  if n ≤ s.stack.length then .ok (s.stack.take n)
  else .error (.stackUnderflow n s.stack.length)

/-- Takes the `n` topmost values off the stack and gives them in the order they were pushed. -/
def unstack (s : State) (n : Nat) : Except Failure (State × List Value) :=
  if n ≤ s.stack.length then
    .ok ({ s with stack := s.stack.drop n }, (s.stack.take n).reverse)
  else .error (.stackUnderflow n s.stack.length)

def pop (s : State) : Except Failure (State × Value) :=
  match s.stack with
  | [] => .error (.stackUnderflow 1 0)
  | v :: rest => .ok ({ s with stack := rest }, v)

def put (s : State) (var : String) (v : Value) : State := { s with vars := s.vars.insert (var, v) }

def value? (s : State) (var : String) : Option Value := (s.vars.find? var).map Prod.snd

def namesOf (s : State) (v : Value) : List String :=
  (s.vars.toList.filter fun e => decide (e.2 ≈ v)).map Prod.fst

/-- Whether `var` is bound to `v`. -/
def binds (s : State) (var : String) (v : Value) : Bool :=
  match s.value? var with
  | some w => decide (w ≈ v)
  | none => false

/-- Binds a parameter to a fresh value without constraints. -/
def bindFresh (entry : State × Supply) (p : Parameter) : State × Supply :=
  let (v, supply) :=
    if p.type = .boxedBoolean then entry.2.freshBoolean else entry.2.fresh
  (entry.1.put p.name v, supply)

/-- The entry state of a routine: every parameter is bound to a value of its own. -/
def initial (parameters : List Parameter) (supply : Supply) : State × Supply :=
  parameters.foldl bindFresh (empty, supply)

def learn (s : State) (r : Relation) : State := { s with relations := s.relations.insert r }

def resolve (s : State) (r : Relation) : Resolution := r.resolve s.relations

/-- The values that a known identity ties to `v`. -/
def equalValues (s : State) (v : Value) : List Value :=
  (s.relations.toList.filter fun r => r.kind == .equal).filterMap fun r =>
    if r.left ≈ v then some r.right
    else if r.right ≈ v then some r.left
    else none

def constraintsOf? (s : State) (v : Value) : Option ConstraintSet :=
  (s.constraints.find? v.toClass).map Prod.snd

def constraint? (s : State) (v : Value) (d : Domain) : Option Constraint :=
  (s.constraintsOf? v).bind (·.get? d)

/-- Adds a constraint, unless `v` holds a different one of the same domain. -/
def constrain? (s : State) (v : Value) (c : Constraint) : Option State :=
  let held := (s.constraintsOf? v).getD ∅
  match held.get? c.domain with
  | some d => if d = c then some s else none
  | none => some { s with constraints := s.constraints.insert (v, held.insert c) }

/-- Adds a constraint, and leaves a state where it cannot be added as it is. -/
def constrain (s : State) (v : Value) (c : Constraint) : State := (s.constrain? v c).getD s

/-- Adds a constraint to `v` and to every value known to be equal to it. -/
def constrainEqual? (s : State) (v : Value) (c : Constraint) : Option State :=
  (v :: s.equalValues v).foldlM (fun s w => s.constrain? w c) s

def release (s : State) (v : Value) (d : Domain) : State :=
  match s.constraintsOf? v with
  | none => s
  | some held =>
    let rest := held.erase d
    if rest.isEmpty then { s with constraints := s.constraints.erase v.toClass }
    else { s with constraints := s.constraints.insert (v, rest) }

/-- The values that hold `c`, in the order of values. -/
def valuesWith (s : State) (c : Constraint) : List Value :=
  (s.constraints.toList.filter fun e => e.2.has c).map Prod.fst

/-- The path leaves the routine by the exception `v`. -/
def exitWith (s : State) (v : Value) : State := { s with exit? := some v }

def visitCount (s : State) (p : Point) : Nat := ((s.visits.find? p).map Prod.snd).getD 0

def visit (s : State) (p : Point) : State :=
  { s with visits := s.visits.insert (p, s.visitCount p + 1) }

/-- The values that can be observed: those on the stack, those of variables and the exception. -/
def roots (s : State) : List Value := s.stack ++ s.vars.toList.map Prod.snd ++ s.exit?.toList

/-- Whether `v` can still be observed, possibly as an operand of a composite value. -/
def canReach (s : State) (v : Value) : Bool := s.roots.any (·.references v)

/-- All values that can still be observed. -/
def reachable (s : State) : Values := s.roots.foldl Values.collect ∅

/-- Forgets what is known about values that can no longer be observed. The literal constants and
values with a constraint that must outlive them are kept. -/
def cleanup (s : State) : State :=
  let reachable := s.reachable
  let live := fun v : Value => !v.isConstant && reachable.has v
  { s with
    constraints := s.constraints.filter fun e =>
      e.1.isConstant || reachable.has e.1 || !e.2.isDisposable
    relations := s.relations.filter fun r => live r.left || live r.right }

end State

end Pathwise
