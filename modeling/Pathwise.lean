import Pathwise.Assumption
import Pathwise.CommandLine
import Pathwise.Constraint
import Pathwise.ControlFlow
import Pathwise.Decimal
import Pathwise.Detector
import Pathwise.Detector.Catalog
import Pathwise.Detector.DivisionByZero
import Pathwise.Detector.ExternalSchemas
import Pathwise.Detector.NullDereference
import Pathwise.Detector.Scripted
import Pathwise.Detector.UnclosedResources
import Pathwise.Execution
import Pathwise.Exploration
import Pathwise.Failure
import Pathwise.Finding
import Pathwise.Flow
import Pathwise.Graph
import Pathwise.Indexed
import Pathwise.Json
import Pathwise.Json.Number
import Pathwise.Json.Reader
import Pathwise.Json.Token
import Pathwise.Json.Writer
import Pathwise.Keyed
import Pathwise.Keyed.Lemmas
import Pathwise.Log
import Pathwise.Main
import Pathwise.Matcher
import Pathwise.Options
import Pathwise.Position
import Pathwise.Program
import Pathwise.Program.Build
import Pathwise.Program.Json
import Pathwise.Proofs.Admission
import Pathwise.Proofs.Atomicity
import Pathwise.Proofs.Bounds
import Pathwise.Proofs.BoxedBooleans
import Pathwise.Proofs.Causality
import Pathwise.Proofs.Closure
import Pathwise.Proofs.Concrete
import Pathwise.Proofs.Conditions
import Pathwise.Proofs.Congruence
import Pathwise.Proofs.Consistency
import Pathwise.Proofs.Constraints
import Pathwise.Proofs.Contract
import Pathwise.Proofs.Creation
import Pathwise.Proofs.Deduction
import Pathwise.Proofs.Dereference
import Pathwise.Proofs.Discipline
import Pathwise.Proofs.Duality
import Pathwise.Proofs.Edges
import Pathwise.Proofs.Effects
import Pathwise.Proofs.Entailment
import Pathwise.Proofs.EntryFlows
import Pathwise.Proofs.Equivariance
import Pathwise.Proofs.Faults
import Pathwise.Proofs.Feasibility
import Pathwise.Proofs.Findings
import Pathwise.Proofs.FlowLimits
import Pathwise.Proofs.Forgetting
import Pathwise.Proofs.Frame
import Pathwise.Proofs.Fresh
import Pathwise.Proofs.Gathered
import Pathwise.Proofs.Grouping
import Pathwise.Proofs.Growth
import Pathwise.Proofs.Identity
import Pathwise.Proofs.Interpretation
import Pathwise.Proofs.Journal
import Pathwise.Proofs.JsonText
import Pathwise.Proofs.Knowledge
import Pathwise.Proofs.Leaks
import Pathwise.Proofs.Marking
import Pathwise.Proofs.MatcherText
import Pathwise.Proofs.Nesting
import Pathwise.Proofs.NonInterference
import Pathwise.Proofs.NullFindings
import Pathwise.Proofs.Operands
import Pathwise.Proofs.Orders
import Pathwise.Proofs.Outcomes
import Pathwise.Proofs.Paths
import Pathwise.Proofs.Preservation
import Pathwise.Proofs.ProgramText
import Pathwise.Proofs.Provenance
import Pathwise.Proofs.Reactions
import Pathwise.Proofs.Registry
import Pathwise.Proofs.Renaming
import Pathwise.Proofs.Represents
import Pathwise.Proofs.Run
import Pathwise.Proofs.Saturation
import Pathwise.Proofs.SearchOrder
import Pathwise.Proofs.Simulation
import Pathwise.Proofs.Soundness
import Pathwise.Proofs.Step
import Pathwise.Proofs.StepLimit
import Pathwise.Proofs.Termination
import Pathwise.Proofs.Tracing
import Pathwise.Proofs.Valuation
import Pathwise.Proofs.ValueEquality
import Pathwise.Proofs.ValueOrder
import Pathwise.Proofs.Visits
import Pathwise.Proofs.WellFormed
import Pathwise.Proofs.Zeroness
import Pathwise.Relation
import Pathwise.Relation.Closure
import Pathwise.Relation.Kind
import Pathwise.Report
import Pathwise.State
import Pathwise.State.Mark
import Pathwise.Statistics
import Pathwise.Text.Blank
import Pathwise.Text.Hidden
import Pathwise.Text.Quoted
import Pathwise.Value
import Pathwise.Value.Class
import Pathwise.Value.Equivalence
import Pathwise.Worklist
