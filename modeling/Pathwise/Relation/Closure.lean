import Pathwise.Failure
import Pathwise.Relation

namespace Pathwise

/-- Limits on deduction from one new relation. -/
structure Budget where
  /-- Relations that may be combined with the known ones, after the first. -/
  iterations : Nat := 10000
  /-- Limit on the number of deduced relations times the number of known ones. -/
  deduced : Nat := 100000
  deriving DecidableEq, Repr

namespace Relation

/-- Combines `r` with every known relation: the deduced relations, and those among them that are
new and still to be combined. A relation deduced again takes the place of its earlier form. -/
def combine (known : Relations) (r : Relation) (found : Relations) : Relations × List Relation :=
  known.toList.foldl
    (fun (found, fresh) s =>
      match r.deduce? s with
      | some d =>
        if found.has d then (found.insert d, fresh)
        else if known.has d then (found, fresh)
        else (found.insert d, fresh ++ [d])
      | none => (found, fresh))
    (found, [])

/-- Combines the relations of the queue and all that they lead to, at most `left` of them. -/
def saturate (known : Relations) (budget : Budget) :
    (left : Nat) → List Relation → Relations → Except Failure Relations
  | _, [], found => .ok found
  | 0, _ :: _, found =>
    .error (.relationsExceeded (found.size * known.size) (budget.iterations + 1))
  | left + 1, r :: queue, found =>
    if found.size * known.size > budget.deduced then
      .error (.relationsExceeded (found.size * known.size) (budget.iterations - left))
    else
      let (found, fresh) := combine known r found
      saturate known budget left (queue ++ fresh) found

/-- All that follows from `r` and the known relations, without what is known already. -/
def closure (r : Relation) (known : Relations) (budget : Budget) : Except Failure Relations :=
  saturate known budget (budget.iterations + 1) [r] ∅

end Relation

end Pathwise
