import Pathwise.Position

namespace Pathwise

/-- What is wrong with a control-flow graph. -/
inductive Malformation where
  | duplicateBlock (id : BlockId)
  | missingBlock (id : BlockId)
  | pointOutOfRange (point : Point)
  deriving DecidableEq, Repr

namespace Malformation

def message : Malformation → String
  | duplicateBlock id => "Block B" ++ toString id.toNat ++ " is declared more than once"
  | missingBlock id => "Cannot find block B" ++ toString id.toNat
  | pointOutOfRange p => "program point " ++ p.text ++ " is out of range"

end Malformation

/-- Why the exploration of a routine ends early. A branch that cannot be taken is no failure: it
shows as an empty list of successor states. -/
inductive Failure where
  | stackUnderflow (needed available : Nat)
  | malformed (cause : Malformation)
  | unboundVariable (name : String)
  /-- Too many relations were deduced from one. -/
  | relationsExceeded (used iterations : Nat)
  | stepsExceeded (steps : Nat)
  /-- Relations between truth values of relations kept requiring one another. -/
  | nestingExceeded
  deriving DecidableEq, Repr

namespace Failure

def message : Failure → String
  | stackUnderflow needed available =>
    "Stack underflow: needed " ++ toString needed ++ " value(s) but only " ++ toString available ++
      " available"
  | malformed cause => "Malformed control-flow graph: " ++ cause.message
  | unboundVariable name => "Undeclared variable: " ++ name
  | relationsExceeded used iterations =>
    "Number of transitive relations exceeded! Used relations: " ++ toString used ++
      ". Iterations " ++ toString iterations
  | stepsExceeded steps => "Maximum number of steps reached: " ++ toString steps
  | nestingExceeded => "Relations are nested too deeply"

/-- A spent budget leaves a partially explored routine; all other causes are a broken input. -/
def isBudget : Failure → Bool
  | relationsExceeded _ _ | stepsExceeded _ | nestingExceeded => true
  | stackUnderflow _ _ | malformed _ | unboundVariable _ => false

end Failure

end Pathwise
