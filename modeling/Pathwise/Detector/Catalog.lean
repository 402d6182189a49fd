import Pathwise.Detector.DivisionByZero
import Pathwise.Detector.ExternalSchemas
import Pathwise.Detector.NullDereference
import Pathwise.Detector.Scripted
import Pathwise.Detector.UnclosedResources

namespace Pathwise

/-- A detector to set up. -/
inductive Detector.Choice where
  | nullDereference
  | divisionByZero
  | externalSchemas
  /-- The texts of the matchers for constructors, factories, opening and closing methods. -/
  | unclosedResources (constructors factories openings closings : String)
  | scripted (name : String) (rules : List Detector.Scripted.Rule)

namespace Detector.Choice

def domains : Choice → Nat
  | divisionByZero | unclosedResources .. => 1
  | externalSchemas => 3
  | nullDereference | scripted .. => 0

/-- Sets the detector up, with `id` for the first of its domains. -/
def setUp (id : Nat) : Choice → Except Matcher.Error Detector
  | nullDereference => .ok NullDereference.detector
  | divisionByZero => .ok (DivisionByZero.detector id)
  | externalSchemas => .ok (ExternalSchemas.detector id)
  | unclosedResources constructors factories openings closings =>
    return UnclosedResources.detector
      (← UnclosedResources.Config.parse constructors factories openings closings id)
  | scripted name rules => .ok (Scripted.detector name rules)

/-- Sets up detectors in order, with domain ids from `id` on. -/
def setUpAll (id : Nat) : List Choice → Except Matcher.Error (List Detector)
  | [] => .ok []
  | c :: cs => do
    let d ← c.setUp id
    return d :: (← setUpAll (id + c.domains) cs)

end Detector.Choice

end Pathwise
