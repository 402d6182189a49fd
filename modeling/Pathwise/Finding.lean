import Pathwise.Flow

namespace Pathwise

/-- A finding of the detector `check`. -/
structure Finding where
  check : String
  pos : Position
  message : String
  flows : List Flow
  deriving DecidableEq

/-- What a detector reports. -/
structure Issue where
  pos : Position
  message : String
  flows : List Flow := []
  deriving DecidableEq

namespace Finding

/-- Adds flows that are not there yet, up to `limit` in all. -/
def addFlows (limit : Nat) (held flows : List Flow) : List Flow :=
  flows.foldl
    (fun held f => if held.length < limit && !held.contains f then held ++ [f] else held) held

def isAbout (f : Finding) (check : String) (issue : Issue) : Bool :=
  f.check == check && f.pos == issue.pos && f.message == issue.message

/-- Adds an issue to the findings. One that was reported before only gains the flows that were not
seen yet. -/
def report (limit : Nat) (check : String) (issue : Issue) : List Finding → List Finding
  | [] => [⟨check, issue.pos, issue.message, addFlows limit [] issue.flows⟩]
  | f :: rest =>
    if f.isAbout check issue then { f with flows := addFlows limit f.flows issue.flows } :: rest
    else f :: report limit check issue rest

end Finding

end Pathwise
