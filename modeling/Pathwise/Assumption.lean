import Pathwise.Relation.Closure
import Pathwise.State

namespace Pathwise

/-- All states consistent with some assumption about a state: none if it contradicts what is known,
several if it splits the state. -/
abbrev Outcomes := Except Failure (List State)

namespace Outcomes

def each (f : State → Outcomes) (states : List State) : Outcomes := do
  return (← states.mapM f).flatten

def both (f g : State → Outcomes) (s : State) : Outcomes := do
  each g (← f s)

def either (f g : State → Outcomes) (s : State) : Outcomes :=
  return (← f s) ++ (← g s)

end Outcomes

namespace LogicalOp

/-- Assumes that `op` applied to two conditions is `b`, where `f` and `g` assume the conditions. -/
def split (op : LogicalOp) (b : Bool) (f g : Bool → State → Outcomes) : State → Outcomes :=
  match op, b with
  | and, true => Outcomes.both (f true) (g true)
  | or, false => Outcomes.both (f false) (g false)
  | and, false => Outcomes.either (f false) (g false)
  | or, true => Outcomes.either (f true) (g true)
  | xor, true =>
    Outcomes.either (Outcomes.both (f true) (g false)) (Outcomes.both (f false) (g true))
  | xor, false =>
    Outcomes.either (Outcomes.both (f true) (g true)) (Outcomes.both (f false) (g false))

end LogicalOp

namespace Value

/-- Assumes that `v` is `b`, where `relate` assumes relations. -/
def assumeTruth (relate : Relation → Bool → State → Outcomes) (v : Value) (b : Bool) (s : State) :
    Outcomes :=
  match v with
  | simple _ | boolean _ => .ok (s.constrain? v (.truth b)).toList
  | not _ w =>
    match s.constrain? v (.truth b) with
    | some s => w.assumeTruth relate (!b) s
    | none => .ok []
  | binary _ op l r =>
    match s.constrain? v (.truth b) with
    | some s =>
      op.split b (fun b s => l.assumeTruth relate b s) (fun b s => r.assumeTruth relate b s) s
    | none => .ok []
  | relational kind l r => relate ⟨kind, l, r⟩ b s

/-- Assumes that `v` holds `c`, where `relate` assumes relations. -/
def assumeWith (relate : Relation → Bool → State → Outcomes) (v : Value) (c : Constraint)
    (s : State) : Outcomes :=
  match c.truth? with
  | some b => v.assumeTruth relate b s
  | none => .ok (s.constrain? v c).toList

def isBoolean : Value → Bool
  | boolean _ => .true
  | _ => .false

end Value

namespace Relation

variable (assume : Value → Constraint → State → Outcomes)

/-- Assumes of `target` what each of the constraints says across the relation. -/
def impose (r : Relation) (target : Value) (held : ConstraintSet) (s : State) : Outcomes :=
  (held.toList.filterMap (·.copyOver r.kind)).foldlM
    (fun states c => Outcomes.each (assume target c) states) [s]

/-- Carries the constraints of `a` over to `b`, or those of `b` to `a` if `a` has none. -/
def transfer (r : Relation) (a b : Value) (s : State) : Outcomes :=
  match s.constraintsOf? a, s.constraintsOf? b with
  | some held, _ => r.impose assume b held s
  | none, some held => r.impose assume a held s
  | none, none => .ok [s]

/-- The boxed boolean operand whose truth is open in `s` while that of the other one is known, if
the relation tells them apart. Such an operand may also be null. -/
def openOperand? (r : Relation) (s : State) : Option Value :=
  match r.kind with
  | .notEqual | .valueNotEqual =>
    match s.constraint? r.left .boolean, s.constraint? r.right .boolean with
    | none, some _ => if r.left.isBoolean then some r.left else none
    | some _, none => if r.right.isBoolean then some r.right else none
    | _, _ => none
  | _ => none

/-- Each state, after the outcomes of `v` being null instead of true or false there. -/
def orNull (v : Value) (states : List State) : Outcomes :=
  Outcomes.each (fun s => return (← assume v .null (s.release v .boolean)) ++ [s]) states

/-- Makes `r` known, if an operand can be observed, and carries constraints across it both ways. -/
def record (r : Relation) (s : State) : Outcomes := do
  let s := if s.canReach r.left || s.canReach r.right then s.learn r else s
  let states ← Outcomes.both (r.transfer assume r.left r.right) (r.transfer assume r.right r.left) s
  match r.openOperand? s with
  | some v => orNull assume v states
  | none => return states

/-- Assumes `r` and all that follows from it. -/
def assumeHolds (budget : Budget) (r : Relation) (s : State) : Outcomes :=
  if s.relations.has r then .ok [s]
  else do
    let implied := (← r.closure s.relations budget).insert r
    if implied.toList.any fun i => i.resolve s.relations == .unfulfilled then return []
    else implied.toList.foldlM (fun states i => Outcomes.each (i.record assume) states) [s]

def assumeWith (budget : Budget) (r : Relation) (b : Bool) (s : State) : Outcomes :=
  (if b then r else r.inverse).assumeHolds assume budget s

end Relation

namespace Value

/-- Assumes that `v` holds `c`, with at most `levels` relations nested in one another: the truth of
a relation is passed down to operands that are relations again. -/
def assumeAt (budget : Budget) : (levels : Nat) → Value → Constraint → State → Outcomes
  | 0 => assumeWith fun _ _ _ => .error .nestingExceeded
  | levels + 1 => assumeWith (Relation.assumeWith (assumeAt budget levels) budget)

end Value

/-- The levels of nesting that an assumption about `v` may use: a number that grows with the values
in sight and with what can be known about them. -/
def State.nestingLimit (s : State) (v : Value) : Nat :=
  let values := v.size + s.relations.toList.foldl (fun n r => n + r.left.size + r.right.size) 0
  let domains := 2 + s.constraints.toList.foldl (fun n e => n + e.2.size) 0
  2 * values * (6 * values * values + values * domains + 1)

def Value.assume (v : Value) (c : Constraint) (budget : Budget) (s : State) : Outcomes :=
  v.assumeAt budget (s.nestingLimit v) c s

def Relation.assume (r : Relation) (b : Bool) (budget : Budget) (s : State) : Outcomes :=
  r.toValue.assume (.truth b) budget s

end Pathwise
