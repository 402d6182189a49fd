import Pathwise.Detector.Catalog
import Pathwise.Report

namespace Pathwise.CommandLine

def version : String := "seflow 0.1.0"

structure Settings where
  path : String
  options : Options := {}
  constructors : String := ""
  factories : String := ""
  openings : String := ""
  closings : String := ""
  statistics : Bool := false
  verbose : Bool := false
  quiet : Bool := false

/-- Why the arguments lead to no analysis. -/
inductive Stop where
  | usage
  | version
  deriving DecidableEq, Repr

inductive Setting where
  | maxSteps
  | maxVisitsPerPoint
  | maxFlows
  | heuristic
  | constructors
  | factories
  | openings
  | closings
  deriving DecidableEq, Repr

inductive Flag where
  | noExceptionalPaths
  | statistics
  | verbose
  | quiet
  deriving DecidableEq, Repr

inductive Name where
  | setting (s : Setting)
  | flag (f : Flag)
  | version
  deriving DecidableEq, Repr

namespace Name

/-- Names are never abbreviated. -/
def ofLong? : String → Option Name
  | "max-steps" => some (setting .maxSteps)
  | "max-visits-per-point" => some (setting .maxVisitsPerPoint)
  | "max-flows" => some (setting .maxFlows)
  | "heuristic" => some (setting .heuristic)
  | "resource-constructor" => some (setting .constructors)
  | "resource-factory-method" => some (setting .factories)
  | "resource-opening-method" => some (setting .openings)
  | "resource-closing-method" => some (setting .closings)
  | "no-exceptional-paths" => some (flag .noExceptionalPaths)
  | "statistics" => some (flag .statistics)
  | "verbose" => some (flag .verbose)
  | "quiet" => some (flag .quiet)
  | "version" => some version
  | _ => none

def ofShort? : Char → Option Name
  | 'v' => some (flag .verbose)
  | 'q' => some (flag .quiet)
  | 'V' => some version
  | _ => none

end Name

/-- The arguments read so far. -/
structure Draft where
  path? : Option String := none
  settings : List (Setting × String) := []
  flags : List Flag := []

/-- An unsigned number of 64 bits, with or without a plus sign. -/
def number? (text : String) : Option Nat :=
  let digits :=
    match text.toList with
    | '+' :: digits => digits
    | digits => digits
  if !digits.isEmpty && digits.all Char.isDigit then
    let n := Json.digitsValue digits
    if n < UInt64.size then some n else none
  else none

def heuristic? : String → Option Heuristic
  | "depth-first-search" => some .depthFirst
  | "breadth-first-search" => some .breadthFirst
  | _ => none

def Setting.accepts (s : Setting) (value : String) : Bool :=
  match s with
  | maxSteps | maxVisitsPerPoint | maxFlows => (number? value).isSome
  | heuristic => (heuristic? value).isSome
  | constructors | factories | openings | closings => true

namespace Draft

/-- Every option has one value, and is given at most once. -/
def set (d : Draft) (s : Setting) (value : String) : Except Stop Draft :=
  if s.accepts value && (d.settings.lookup s).isNone then
    .ok { d with settings := (s, value) :: d.settings }
  else .error .usage

def mark (d : Draft) (f : Flag) : Except Stop Draft :=
  if f ∈ d.flags then .error .usage else .ok { d with flags := f :: d.flags }

/-- There is one path, and it is not empty. -/
def locate (d : Draft) (path : String) : Except Stop Draft :=
  if path = "" || d.path?.isSome then .error .usage else .ok { d with path? := some path }

/-- Short flags, grouped after one dash. -/
def markShort (d : Draft) (c : Char) : Except Stop Draft :=
  match Name.ofShort? c with
  | some (.flag f) => d.mark f
  | some .version => .error .version
  | some (.setting _) | none => .error .usage

def finish (d : Draft) : Except Stop Settings :=
  match d.path? with
  | none => .error .usage
  | some path =>
    if .verbose ∈ d.flags ∧ .quiet ∈ d.flags then .error .usage
    else
      let text := fun s => (d.settings.lookup s).getD ""
      let number := fun s absent => ((d.settings.lookup s).bind number?).getD absent
      let default : Options := {}
      .ok {
        path
        options := { default with
          maxSteps := number .maxSteps default.maxSteps
          maxVisitsPerPoint := number .maxVisitsPerPoint default.maxVisitsPerPoint
          maxFlows := number .maxFlows default.maxFlows
          heuristic := ((d.settings.lookup .heuristic).bind heuristic?).getD default.heuristic
          exceptionalPaths := .noExceptionalPaths ∉ d.flags }
        constructors := text .constructors
        factories := text .factories
        openings := text .openings
        closings := text .closings
        statistics := .statistics ∈ d.flags
        verbose := .verbose ∈ d.flags
        quiet := .quiet ∈ d.flags }

end Draft

/-- An argument by its form. -/
inductive Argument where
  /-- All later arguments are paths. -/
  | endOfOptions
  | long (name : String) (value? : Option String)
  | short (flags : List Char)
  | plain (text : String)

/-- A single dash is a path or a value. -/
def Argument.ofString (text : String) : Argument :=
  match text.toList with
  | ['-', '-'] => endOfOptions
  | '-' :: '-' :: rest =>
    let name := String.ofList (rest.takeWhile (· != '='))
    match rest.dropWhile (· != '=') with
    | [] => long name none
    | _ :: value => long name (some (String.ofList value))
  | '-' :: c :: rest => short (c :: rest)
  | _ => plain text

/-- Reads arguments from left to right. A value that is an argument of its own has no dash. -/
def read : Draft → List String → Except Stop Draft
  | d, [] => .ok d
  | d, arg :: args =>
    match Argument.ofString arg with
    | .endOfOptions => args.foldlM Draft.locate d
    | .plain path => do read (← d.locate path) args
    | .short flags => do read (← flags.foldlM Draft.markShort d) args
    | .long name value? =>
      match Name.ofLong? name, value? with
      | some (.setting s), some value => do read (← d.set s value) args
      | some (.setting s), none =>
        match args with
        | value :: args =>
          match Argument.ofString value with
          | .plain value => do read (← d.set s value) args
          | _ => .error .usage
        | [] => .error .usage
      | some (.flag f), none => do read (← d.mark f) args
      | some .version, none => .error .version
      | some (.flag _), some _ | some .version, some _ | none, _ => .error .usage

def parse (args : List String) : Except Stop Settings := do
  (← read {} args).finish

/-- Why no analysis was made. -/
inductive Error where
  | usage
  | unreadable (path reason : String)
  | malformedProgram
  | matcher (e : Matcher.Error)

def Error.message : Error → String
  | usage => "usage"
  | unreadable path reason => "Cannot read " ++ path ++ ": " ++ reason
  | malformedProgram => "malformed program"
  | matcher e => e.message

def Settings.watchesResources (s : Settings) : Bool :=
  [s.constructors, s.factories, s.openings, s.closings].any fun text =>
    !(Text.trim text.toList).isEmpty

def Settings.choices (s : Settings) : List Detector.Choice :=
  [.nullDereference, .divisionByZero, .externalSchemas] ++
    if s.watchesResources then
      [.unclosedResources s.constructors s.factories s.openings s.closings]
    else []

/-- Analyzes the program in the file that was named, given its content or why it cannot be read. -/
def Settings.analyze (s : Settings) (content : Except String String) :
    Except Error (List Analysis) := do
  let text ← content.mapError (Error.unreadable s.path)
  let program ←
    match Program.parse? text with
    | some p => pure p
    | none => .error .malformedProgram
  let detectors ← (Detector.Choice.setUpAll 0 s.choices).mapError .matcher
  return program.analyze detectors s.options

def Settings.report (s : Settings) (analyses : List Analysis) : String :=
  (Json.array (analyses.map (·.toJson s.statistics))).pretty ++ "\n"

/-- How urgent a log record has to be in order to be shown. -/
def Settings.threshold (s : Settings) : Log.Level :=
  if s.verbose then .debug else if s.quiet then .error else .warning

/-- What a run of the command line prints, and its exit code. -/
structure Outcome where
  exitCode : UInt32
  output : String := ""
  log : List Log.Record := []
  error? : Option Error := none

def Outcome.ofAnalyses (s : Settings) : Except Error (List Analysis) → Outcome
  | .error e => { exitCode := 2, error? := some e }
  | .ok analyses =>
    { exitCode := if analyses.all fun a => a.journal.findings.isEmpty then 0 else 1
      output := s.report analyses
      log := analyses.flatMap fun a => a.journal.log.toList.filter (·.level.reaches s.threshold) }

def Outcome.ofStop : Stop → Outcome
  | .usage => { exitCode := 2, error? := some .usage }
  | .version => { exitCode := 0, output := version ++ "\n" }

/-- A run of the command line, where `file` gives the content of files. -/
def run (args : List String) (file : String → Except String String) : Outcome :=
  match parse args with
  | .error stop => .ofStop stop
  | .ok s => .ofAnalyses s (s.analyze (file s.path))

end Pathwise.CommandLine
