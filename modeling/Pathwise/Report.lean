import Pathwise.Exploration
import Pathwise.Program.Json

namespace Pathwise

namespace Flow

def toJson (f : Flow) : Json := .object [
  ("locations", .array (f.map fun l =>
    .object [("pos", l.pos.toJson), ("message", .string l.message)]))]

end Flow

namespace Finding

def toJson (f : Finding) : Json := .object [
  ("check", .string f.check),
  ("pos", f.pos.toJson),
  ("message", .string f.message),
  ("flows", .array (f.flows.map Flow.toJson))]

end Finding

namespace Statistics

def toJson (s : Statistics) : Json := .object (s.entries.map fun (name, n) => (name, .ofNat n))

end Statistics

namespace Analysis

/-- What is reported of a routine, with its statistics if they are wanted. -/
def toJson (statistics : Bool) (a : Analysis) : Json := .object (
  [("routine", .string a.routine),
    ("status", .string a.status.text),
    ("findings", .array (a.journal.findings.map Finding.toJson))] ++
  if statistics then [("statistics", a.statistics.toJson)] else [])

end Analysis

end Pathwise
